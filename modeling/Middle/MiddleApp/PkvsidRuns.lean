import Middle.MiddleApp.PkvsidTableMigrator

/-! Runs of the migrator that makes an identity column the only key of its table: it is fed the columns one behind
the other and then asked for what is left of the keys and for the identity columns to make unique. -/

namespace Middle.MiddleApp

open Lib Universals NormalDdl

/-- A column that has been fed, and what was found of it. -/
structure FedColumn where
  column : DdlColumn
  migration : DdlDatatypeMigration

namespace FedColumn

def rejected (r : FedColumn) : Bool := r.migration.columnRejected

/-- The column is accepted and has an identity clause. -/
def isIdentity (r : FedColumn) : Bool := !r.migration.columnRejected && r.migration.identityClause != []

theorem isIdentity_of_rejected {r : FedColumn} (h : r.rejected = true) : r.isIdentity = false := by
  unfold rejected at h
  unfold isIdentity
  rw [h]
  rfl

end FedColumn

/-- The rules reject the data type of a column. -/
def RejectedByRules (prefs : DdlTableMigratorPrefs) (column : DdlColumn) : Prop := prefs.leave column.datatype = none

/-- An identity column that the rules accept. -/
def IdentityByRules (prefs : DdlTableMigratorPrefs) (column : DdlColumn) : Prop :=
  column.identity = true ∧ ¬ RejectedByRules prefs column

instance (prefs : DdlTableMigratorPrefs) : DecidablePred (RejectedByRules prefs) := fun column =>
  inferInstanceAs (Decidable (prefs.leave column.datatype = none))

instance (prefs : DdlTableMigratorPrefs) : DecidablePred (IdentityByRules prefs) := fun column =>
  inferInstanceAs (Decidable (column.identity = true ∧ ¬ RejectedByRules prefs column))

namespace PkvsidTableMigrator

section Runs

variable (prefs : DdlTableMigratorPrefs) (fuel : Nat)

def feedColumn (st : PkvsidTableMigrator) (column : DdlColumn) : Except Fault (FedColumn × PkvsidTableMigrator) := do
  let (migration, _, st) ← migrateDatatypeDdl prefs fuel column.cname (column.defaultValue.getD []) column.identity st
    column.datatype
  return (⟨column, migration⟩, st)

def feed (st : PkvsidTableMigrator) : List DdlColumn → Except Fault (List FedColumn × PkvsidTableMigrator)
  | [] => return ([], st)
  | column :: columns => do
      let (r, st) ← feedColumn prefs fuel st column
      let (fed, st) ← feed st columns
      return (r :: fed, st)

end Runs

/-! ### One column -/

theorem clearSoleKey_eq (cname : DdlCname) (pkCnames : List DdlCname) :
    clearSoleKey cname pkCnames = if pkCnames = [cname] then [] else pkCnames := by
  unfold clearSoleKey
  refine if_congr ?_ rfl rfl
  rw [List.length_eq_one_iff]
  constructor
  · rintro ⟨hmem, key, rfl⟩
    rw [List.mem_singleton.mp hmem]
  · rintro rfl
    exact ⟨List.mem_singleton_self _, _, rfl⟩

theorem clearSoleKey_eq_nil_iff {cname : DdlCname} {pkCnames : List DdlCname} :
    clearSoleKey cname pkCnames = [] ↔ pkCnames = [] ∨ pkCnames = [cname] := by
  rw [clearSoleKey_eq]
  split
  · rename_i h
    exact iff_of_true rfl (.inr h)
  · rename_i h
    exact ⟨.inl, fun hor => hor.resolve_right h⟩

/-- What becomes of a column, and of the state. -/
inductive Turn (prefs : DdlTableMigratorPrefs) (st : PkvsidTableMigrator) :
    FedColumn → PkvsidTableMigrator → Prop
  | rejected {r : FedColumn} (hrules : RejectedByRules prefs r.column) (hrejected : r.rejected = true) :
      Turn prefs st r { st with pkCnames := st.pkCnames.erase r.column.cname }
  | accepted {r : FedColumn} (hrules : ¬ RejectedByRules prefs r.column) (hidentity : r.column.identity = false)
      (hrejected : r.rejected = false) (hclause : r.isIdentity = false) : Turn prefs st r st
  | conflict {r : FedColumn} (hrules : IdentityByRules prefs r.column)
      (hconflict : clearSoleKey r.column.cname st.pkCnames ≠ [] ∨ st.identityCnt ≠ 0)
      (hrejected : r.rejected = true) :
      Turn prefs st r { st with
        pkCnames := clearSoleKey r.column.cname st.pkCnames, identityCnames := [], identityCnt := st.identityCnt + 1 }
  | identity {r : FedColumn} (hrules : IdentityByRules prefs r.column)
      (hkeys : clearSoleKey r.column.cname st.pkCnames = []) (hcnt : st.identityCnt = 0)
      (hclause : r.isIdentity = true) :
      Turn prefs st r { st with
        pkCnames := [], identityCnames := st.identityCnames ++ [r.column.cname], identityCnt := st.identityCnt + 1 }

section Feed

variable {prefs : DdlTableMigratorPrefs} {fuel : Nat} {st st' : PkvsidTableMigrator} {r : FedColumn}

theorem turn_migrateIdentity {column : DdlColumn} {migration : DdlDatatypeMigration}
    (hrules : IdentityByRules prefs column) (haccepted : migration.columnRejected = false) :
    Turn prefs st ⟨column, (migrateIdentity column.cname migration st).1⟩
      (migrateIdentity column.cname migration st).2 := by
  unfold migrateIdentity
  dsimp only
  by_cases hkeys : clearSoleKey column.cname st.pkCnames = []
  · rw [hkeys, if_neg (not_not.mpr rfl)]
    by_cases hcnt : st.identityCnt = 0
    · rw [if_neg (not_not.mpr hcnt)]
      refine .identity hrules hkeys hcnt ?_
      show (!migration.columnRejected && identityClause != []) = true
      rw [haccepted]
      rfl
    · rw [if_pos hcnt]
      have hturn : Turn prefs st ⟨column, (rejectIdentity (otherIdentitiesMsg column.cname) migration st).1⟩ _ :=
        .conflict hrules (.inr hcnt) rfl
      rw [hkeys] at hturn
      exact hturn
  · rw [if_pos hkeys]
    exact .conflict hrules (.inl hkeys) rfl

theorem turn_of_feedColumn {column : DdlColumn} (h : feedColumn prefs fuel st column = .ok (r, st')) :
    r.column = column ∧ Turn prefs st r st' := by
  unfold feedColumn migrateDatatypeDdl at h
  cases hbase : NormalDdl.migrateDatatypeDdl prefs fuel (column.defaultValue.getD []) column.datatype with
  | error e datatype =>
      rw [hbase] at h
      cases h
  | ok migration datatype =>
      rw [hbase] at h
      dsimp only at h
      have hleave : migration.columnRejected = (prefs.leave column.datatype).isNone :=
        (migrateDatatypeDdl_eq_ok hbase).1
      have hclause : migration.identityClause = [] := identityClause_migrateDatatypeDdl hbase
      split at h
      · rename_i hrejected
        cases h
        exact ⟨rfl, .rejected (Option.isNone_iff_eq_none.mp (hleave ▸ hrejected)) hrejected⟩
      · rename_i hrejected
        have hrules : ¬ RejectedByRules prefs column := fun hnone => hrejected (by rw [hleave, hnone]; rfl)
        split at h
        · rename_i hidentity
          cases h
          exact ⟨rfl, turn_migrateIdentity ⟨hidentity, hrules⟩ (eq_false_of_ne_true hrejected)⟩
        · rename_i hidentity
          cases h
          exact ⟨rfl, .accepted hrules (eq_false_of_ne_true hidentity) (eq_false_of_ne_true hrejected)
            (by simp [FedColumn.isIdentity, hclause])⟩

/-- The turn of an identity column that the rules accept: a conflict, or the clause. -/
theorem Turn.of_identity (h : Turn prefs st r st') (hidentity : IdentityByRules prefs r.column) :
    st'.identityCnt = st.identityCnt + 1 ∧
      ((r.isIdentity = false ∧ (clearSoleKey r.column.cname st.pkCnames ≠ [] ∨ st.identityCnt ≠ 0)) ∨
        (r.isIdentity = true ∧ clearSoleKey r.column.cname st.pkCnames = [] ∧
          st'.identityCnames = st.identityCnames ++ [r.column.cname])) := by
  cases h with
  | rejected hrules _ => exact absurd hrules hidentity.2
  | accepted _ hplain _ _ => exact absurd (hplain.symm.trans hidentity.1) Bool.false_ne_true
  | conflict _ hconflict hrejected =>
      exact ⟨rfl, .inl ⟨FedColumn.isIdentity_of_rejected hrejected, hconflict⟩⟩
  | identity _ hkeys _ hclause => exact ⟨rfl, .inr ⟨hclause, hkeys, rfl⟩⟩

/-! ### Runs of columns -/

theorem feed_cons_eq_ok_iff {column : DdlColumn} {columns : List DdlColumn} {fed : List FedColumn} :
    feed prefs fuel st (column :: columns) = .ok (fed, st') ↔
      ∃ r st₁ fed', feedColumn prefs fuel st column = .ok (r, st₁) ∧ feed prefs fuel st₁ columns = .ok (fed', st') ∧
        fed = r :: fed' := by
  have hfeed : feed prefs fuel st (column :: columns) =
      feedColumn prefs fuel st column >>= fun turn =>
        feed prefs fuel turn.2 columns >>= fun run => .ok (turn.1 :: run.1, run.2) := rfl
  rw [hfeed]
  simp only [bind_eq_ok, Prod.exists, Except.ok.injEq, Prod.mk.injEq]
  constructor
  · rintro ⟨r, st₁, hr, fed', _, hfed', rfl, rfl⟩
    exact ⟨r, st₁, fed', hr, hfed', rfl⟩
  · rintro ⟨r, st₁, fed', hr, hfed', rfl⟩
    exact ⟨r, st₁, hr, fed', st', hfed', rfl, rfl⟩

theorem feed_append_eq_ok_iff {before behind : List DdlColumn} {fed : List FedColumn} :
    feed prefs fuel st (before ++ behind) = .ok (fed, st') ↔
      ∃ fed₁ st₁ fed₂, feed prefs fuel st before = .ok (fed₁, st₁) ∧ feed prefs fuel st₁ behind = .ok (fed₂, st') ∧
        fed = fed₁ ++ fed₂ := by
  induction before generalizing st fed with
  | nil =>
      constructor
      · exact fun h => ⟨[], st, fed, rfl, h, rfl⟩
      · rintro ⟨fed₁, st₁, fed₂, h₁, h₂, rfl⟩
        cases h₁
        exact h₂
  | cons column before ih =>
      simp only [List.cons_append, feed_cons_eq_ok_iff, ih]
      constructor
      · rintro ⟨r, st₁, _, hr, ⟨fed₁, st₂, fed₂, h₁, h₂, rfl⟩, rfl⟩
        exact ⟨r :: fed₁, st₂, fed₂, ⟨r, st₁, fed₁, hr, h₁, rfl⟩, h₂, rfl⟩
      · rintro ⟨_, st₂, fed₂, ⟨r, st₁, fed₁, hr, h₁, rfl⟩, h₂, rfl⟩
        exact ⟨r, st₁, fed₁ ++ fed₂, hr, ⟨fed₁, st₂, fed₂, h₁, h₂, rfl⟩, rfl⟩

theorem feed_singleton_eq_ok_iff {column : DdlColumn} {fed : List FedColumn} :
    feed prefs fuel st [column] = .ok (fed, st') ↔
      ∃ r, feedColumn prefs fuel st column = .ok (r, st') ∧ fed = [r] := by
  rw [feed_cons_eq_ok_iff]
  constructor
  · rintro ⟨r, st₁, fed', hr, hnil, rfl⟩
    cases hnil
    exact ⟨r, hr, rfl⟩
  · rintro ⟨r, hr, rfl⟩
    exact ⟨r, st', [], hr, rfl, rfl⟩

/-- What each turn keeps holds behind all columns. -/
theorem feed_induction {P : List FedColumn → PkvsidTableMigrator → Prop} {columns : List DdlColumn}
    {fed : List FedColumn} (h : feed prefs fuel st columns = .ok (fed, st')) (hstart : P [] st)
    (hturn : ∀ fed st r st', P fed st → Turn prefs st r st' → P (fed ++ [r]) st') : P fed st' := by
  have hrun : ∀ columns before fed st, feed prefs fuel st columns = .ok (fed, st') → P before st →
      P (before ++ fed) st' := by
    intro columns
    induction columns with
    | nil =>
        intro before fed st h hbefore
        cases h
        rwa [List.append_nil]
    | cons column columns ih =>
        intro before fed st h hbefore
        obtain ⟨r, st₁, fed', hr, hfed', rfl⟩ := feed_cons_eq_ok_iff.mp h
        have hnext := hturn before st r st₁ hbefore (turn_of_feedColumn hr).2
        rw [List.append_cons]
        exact ih (before ++ [r]) fed' st₁ hfed' hnext
  exact hrun columns [] fed st h hstart

theorem feed_concat_eq_ok_iff {before : List DdlColumn} {column : DdlColumn} {fed : List FedColumn} :
    feed prefs fuel st (before ++ [column]) = .ok (fed, st') ↔
      ∃ fed₁ st₁ r, feed prefs fuel st before = .ok (fed₁, st₁) ∧ feedColumn prefs fuel st₁ column = .ok (r, st') ∧
        fed = fed₁ ++ [r] := by
  rw [feed_append_eq_ok_iff]
  constructor
  · rintro ⟨fed₁, st₁, fed₂, h₁, h₂, rfl⟩
    obtain ⟨r, hr, rfl⟩ := feed_singleton_eq_ok_iff.mp h₂
    exact ⟨fed₁, st₁, r, h₁, hr, rfl⟩
  · rintro ⟨fed₁, st₁, r, h₁, hr, rfl⟩
    exact ⟨fed₁, st₁, [r], h₁, feed_singleton_eq_ok_iff.mpr ⟨r, hr, rfl⟩, rfl⟩

/-- Feeding columns asks for neither list. -/
theorem feed_called {columns : List DdlColumn} {fed : List FedColumn}
    (h : feed prefs fuel st columns = .ok (fed, st')) :
    st'.filterPkColumnsCalled = st.filterPkColumnsCalled ∧
      st'.uniquifyIdentityColumnsCalled = st.uniquifyIdentityColumnsCalled := by
  refine feed_induction (P := fun _ st' => st'.filterPkColumnsCalled = st.filterPkColumnsCalled ∧
    st'.uniquifyIdentityColumnsCalled = st.uniquifyIdentityColumnsCalled) h ⟨rfl, rfl⟩ ?_
  intro fed st₁ r st₂ hcalled hturn
  cases hturn <;> exact hcalled

/-! ### Rejected columns in the key -/

/-- A rejected column is taken out of the keys with all its occurrences, and an identity column is the only key or
none of them. -/
def TakesKeyAlong (prefs : DdlTableMigratorPrefs) (st : PkvsidTableMigrator) (column : DdlColumn) : Prop :=
  (RejectedByRules prefs column → column.cname ∉ st.pkCnames.erase column.cname) ∧
    (IdentityByRules prefs column → column.cname ∈ st.pkCnames → st.pkCnames.length = 1)

/-- No rejected column is among the keys that are left. -/
def KeysAccepted (fed : List FedColumn) (st : PkvsidTableMigrator) : Prop :=
  ∃ keys st', st.filterPkColumns = .ok (keys, st') ∧ ∀ r ∈ fed, r.rejected = true → r.column.cname ∉ keys

/-- A turn takes columns out of the keys and puts none in. -/
theorem subset_of_turn (h : Turn prefs st r st') : st'.pkCnames ⊆ st.pkCnames := by
  cases h with
  | rejected _ _ => exact List.erase_subset
  | accepted _ _ _ _ => exact List.Subset.refl _
  | conflict _ _ _ =>
      show clearSoleKey r.column.cname st.pkCnames ⊆ st.pkCnames
      rw [clearSoleKey_eq]
      split
      · exact List.nil_subset _
      · exact List.Subset.refl _
  | identity _ _ _ _ => exact List.nil_subset _

/-- The column of a turn that is rejected is left in no key exactly when it takes its key along. -/
theorem turn_takesKeyAlong_iff (h : Turn prefs st r st') :
    (r.rejected = true → r.column.cname ∉ st'.pkCnames) ↔ TakesKeyAlong prefs st r.column := by
  unfold TakesKeyAlong
  cases h with
  | rejected hrules hrejected =>
      have hidentity : ¬ IdentityByRules prefs r.column := fun h => h.2 hrules
      rw [forall_prop_of_true hrejected, forall_prop_of_true hrules, and_iff_left fun h => absurd h hidentity]
  | accepted hrules hidentity hrejected _ =>
      refine iff_of_true (fun h => by rw [hrejected] at h; cases h) ⟨fun h => absurd h hrules, fun h => ?_⟩
      rw [IdentityByRules, hidentity] at h
      cases h.1
  | conflict hrules _ hrejected =>
      rw [forall_prop_of_true hrejected, forall_prop_of_true hrules, and_iff_right fun h => absurd h hrules.2]
      show r.column.cname ∉ clearSoleKey r.column.cname st.pkCnames ↔ _
      unfold clearSoleKey
      by_cases hmem : r.column.cname ∈ st.pkCnames
      · by_cases hlength : st.pkCnames.length = 1 <;> simp [hmem, hlength]
      · simp [hmem]
  | identity hrules hkeys _ hclause =>
      refine iff_of_true (fun _ => List.not_mem_nil) ⟨fun h => absurd h hrules.2, fun _ hmem => ?_⟩
      rcases clearSoleKey_eq_nil_iff.mp hkeys with hnil | hsole
      · rw [hnil] at hmem
        cases hmem
      · rw [hsole]
        rfl

section Fresh

variable {stname : DdlStname} {pkCnames : List DdlCname}

theorem filterPkColumns_of_feed {columns : List DdlColumn} {fed : List FedColumn}
    (h : feed prefs fuel { stname, pkCnames } columns = .ok (fed, st)) :
    st.filterPkColumns = .ok (st.pkCnames, { st with pkCnames := [], filterPkColumnsCalled := true }) := by
  unfold filterPkColumns
  rw [(feed_called h).1]
  rfl

theorem keysAccepted_iff {columns : List DdlColumn} {fed : List FedColumn}
    (h : feed prefs fuel { stname, pkCnames } columns = .ok (fed, st)) :
    KeysAccepted fed st ↔ ∀ r ∈ fed, r.rejected = true → r.column.cname ∉ st.pkCnames := by
  unfold KeysAccepted
  rw [filterPkColumns_of_feed h]
  constructor
  · rintro ⟨keys, st', hkeys, hall⟩
    cases hkeys
    exact hall
  · exact fun hall => ⟨_, _, rfl, hall⟩

/-- At no point of a run the keys that are left hold a rejected column, exactly when each column takes its key
along. -/
theorem feed_keysAccepted_iff (columns : List DdlColumn) :
    (∀ before fed st, before <+: columns → feed prefs fuel { stname, pkCnames } before = .ok (fed, st) →
        KeysAccepted fed st) ↔
      ∀ before column fed st r st', before ++ [column] <+: columns →
        feed prefs fuel { stname, pkCnames } before = .ok (fed, st) → feedColumn prefs fuel st column = .ok (r, st') →
          TakesKeyAlong prefs st column := by
  constructor
  · intro haccepted before column fed st r st' hprefix hbefore hcolumn
    have hconcat := feed_concat_eq_ok_iff.mpr ⟨fed, st, r, hbefore, hcolumn, rfl⟩
    obtain ⟨rfl, hturn⟩ := turn_of_feedColumn hcolumn
    have hkeys := (keysAccepted_iff hconcat).mp (haccepted _ _ _ hprefix hconcat)
    exact (turn_takesKeyAlong_iff hturn).mp (hkeys r (by simp))
  · intro halong before
    induction before using List.reverseRecOn with
    | nil =>
        intro fed st _ hnil
        cases hnil
        exact ⟨_, _, rfl, fun r hr => by cases hr⟩
    | append_singleton before column ih =>
        intro fed st hprefix hconcat
        rw [keysAccepted_iff hconcat]
        obtain ⟨fed₁, st₁, r, hbefore, hcolumn, rfl⟩ := feed_concat_eq_ok_iff.mp hconcat
        have htakes : TakesKeyAlong prefs st₁ column := halong before column _ _ _ _ hprefix hbefore hcolumn
        obtain ⟨rfl, hturn⟩ := turn_of_feedColumn hcolumn
        have hkeys := (keysAccepted_iff hbefore).mp (ih fed₁ st₁ ((List.prefix_append _ _).trans hprefix) hbefore)
        intro r' hr' hrejected
        rcases List.mem_append.mp hr' with hold | hnew
        · exact fun hmem => hkeys r' hold hrejected (subset_of_turn hturn hmem)
        · rw [List.mem_singleton.mp hnew] at hrejected ⊢
          exact (turn_takesKeyAlong_iff hturn).mpr htakes hrejected

/-- An identity column of type `INT`. -/
def identityColumn (cname : String) : DdlColumn := { plainColumn cname "INT" with identity := true }

def cnameA : DdlCname := .ofText "a".toList

def cnameB : DdlCname := .ofText "b".toList

/-- One of two keys is an identity column: it is rejected and stays in the key. -/
theorem feed_keeps_rejected_key :
    ∃ fed st, feed intPrefs 0 { stname := dboT, pkCnames := [cnameA, cnameB] } [identityColumn "a"] = .ok (fed, st) ∧
      (∃ r ∈ fed, r.rejected = true ∧ r.column.cname = cnameA) ∧
      (∃ st', st.filterPkColumns = .ok ([cnameA, cnameB], st')) ∧ ¬ KeysAccepted fed st := by
  refine ⟨_, _, rfl, ⟨_, List.mem_singleton_self _, rfl, rfl⟩, ⟨_, rfl⟩, ?_⟩
  rintro ⟨keys, st', hkeys, haccepted⟩
  cases hkeys
  exact haccepted _ (List.mem_singleton_self _) rfl List.mem_cons_self

/-! ### The identity column -/

/-- What is known of the columns fed so far: as long as no identity column has been counted none is in the list,
and the keys are gone as soon as one has its clause. -/
structure Linked (fed : List FedColumn) (st : PkvsidTableMigrator) : Prop where
  fresh : st.identityCnt = 0 → st.identityCnames = [] ∧ ∀ r ∈ fed, r.isIdentity = false
  keys : (∃ r ∈ fed, r.isIdentity = true) → st.pkCnames = []
  length_filter : (fed.filter FedColumn.isIdentity).length ≤ 1
  length_cnames : st.identityCnames.length ≤ 1
  cnames : ∀ cname ∈ st.identityCnames, ∃ r ∈ fed, r.column.cname = cname ∧ r.isIdentity = true

/-- A turn without an identity clause. -/
theorem Linked.append {fed : List FedColumn} (h : Linked fed st) (hclause : r.isIdentity = false)
    (hkeys : st'.pkCnames ⊆ st.pkCnames) (hcnt : st'.identityCnt = 0 → st.identityCnt = 0)
    (hcnames : st'.identityCnames = st.identityCnames ∨ st'.identityCnames = []) : Linked (fed ++ [r]) st' where
  fresh hzero := by
    obtain ⟨hnil, hfed⟩ := h.fresh (hcnt hzero)
    refine ⟨?_, fun r' hr' => ?_⟩
    · rcases hcnames with heq | heq
      · exact heq.trans hnil
      · exact heq
    · rcases List.mem_append.mp hr' with hold | hnew
      · exact hfed r' hold
      · rw [List.mem_singleton.mp hnew]
        exact hclause
  keys := by
    rintro ⟨r', hr', hclause'⟩
    rcases List.mem_append.mp hr' with hold | hnew
    · exact List.subset_nil.mp (h.keys ⟨r', hold, hclause'⟩ ▸ hkeys)
    · rw [List.mem_singleton.mp hnew, hclause] at hclause'
      cases hclause'
  length_filter := by
    rw [List.filter_append, List.filter_singleton, hclause]
    simpa using h.length_filter
  length_cnames := by
    rcases hcnames with heq | heq
    · rw [heq]
      exact h.length_cnames
    · rw [heq]
      exact Nat.zero_le _
  cnames cname hcname := by
    rcases hcnames with heq | heq
    · rw [heq] at hcname
      obtain ⟨r', hr', hfound⟩ := h.cnames cname hcname
      exact ⟨r', List.mem_append_left _ hr', hfound⟩
    · rw [heq] at hcname
      cases hcname

theorem Linked.turn {fed : List FedColumn} (h : Linked fed st) (hturn : Turn prefs st r st') :
    Linked (fed ++ [r]) st' := by
  have hkeys := subset_of_turn hturn
  cases hturn with
  | rejected _ hrejected => exact h.append (FedColumn.isIdentity_of_rejected hrejected) hkeys id (.inl rfl)
  | accepted _ _ _ hclause => exact h.append hclause hkeys id (.inl rfl)
  | conflict _ _ hrejected =>
      exact h.append (FedColumn.isIdentity_of_rejected hrejected) hkeys
        (fun hzero => absurd hzero (Nat.succ_ne_zero _)) (.inr rfl)
  | identity _ _ hcnt hclause =>
      obtain ⟨hnil, hfed⟩ := h.fresh hcnt
      have hfilter : fed.filter FedColumn.isIdentity = [] :=
        List.filter_eq_nil_iff.mpr fun r' hr' => by rw [hfed r' hr']; exact Bool.false_ne_true
      refine ⟨fun hzero => absurd hzero (Nat.succ_ne_zero _), fun _ => rfl, ?_, ?_, ?_⟩
      · rw [List.filter_append, hfilter, List.filter_singleton, hclause]
        rfl
      · show (st.identityCnames ++ [r.column.cname]).length ≤ 1
        rw [hnil]
        rfl
      · intro cname hcname
        have hmem : cname ∈ st.identityCnames ++ [r.column.cname] := hcname
        rw [hnil] at hmem
        exact ⟨r, by simp, (List.mem_singleton.mp hmem).symm, hclause⟩

theorem linked_of_feed {columns : List DdlColumn} {fed : List FedColumn}
    (h : feed prefs fuel { stname, pkCnames } columns = .ok (fed, st)) : Linked fed st := by
  refine feed_induction h ?_ fun _ _ _ _ hlinked hturn => hlinked.turn hturn
  constructor
  · exact fun _ => ⟨rfl, fun r hr => by cases hr⟩
  · rintro ⟨r, hr, -⟩
    cases hr
  · exact Nat.zero_le _
  · exact Nat.zero_le _
  · exact fun cname hcname => by cases hcname

theorem uniquifyIdentityColumns_of_feed {columns : List DdlColumn} {fed : List FedColumn}
    (h : feed prefs fuel { stname, pkCnames } columns = .ok (fed, st))
    (hcnames : st'.identityCnames = st.identityCnames)
    (hcalled : st'.uniquifyIdentityColumnsCalled = st.uniquifyIdentityColumnsCalled) :
    ∃ st'', st'.uniquifyIdentityColumns = .ok (st.identityCnames, st'') := by
  unfold uniquifyIdentityColumns
  rw [hcalled, (feed_called h).2, hcnames, if_neg Bool.false_ne_true, if_pos (linked_of_feed h).length_cnames]
  exact ⟨_, rfl⟩

/-- At most one column has an identity clause. With one the key is empty; and what is to be made unique, asked
for in front of the key or behind it, is that column if it is anything. -/
theorem feed_identity {columns : List DdlColumn} {fed : List FedColumn}
    (h : feed prefs fuel { stname, pkCnames } columns = .ok (fed, st)) :
    (fed.filter FedColumn.isIdentity).length ≤ 1 ∧
      ∃ keys st', st.filterPkColumns = .ok (keys, st') ∧ ((∃ r ∈ fed, r.isIdentity = true) → keys = []) ∧
        ∀ s, s = st ∨ s = st' → ∃ cnames s', s.uniquifyIdentityColumns = .ok (cnames, s') ∧ cnames.length ≤ 1 ∧
          ∀ cname ∈ cnames, ∃ r ∈ fed, r.column.cname = cname ∧ r.isIdentity = true := by
  have hlinked := linked_of_feed h
  refine ⟨hlinked.length_filter, st.pkCnames, _, filterPkColumns_of_feed h, hlinked.keys, ?_⟩
  rintro s (rfl | rfl)
  · obtain ⟨s', hs'⟩ := uniquifyIdentityColumns_of_feed h rfl rfl
    exact ⟨_, s', hs', hlinked.length_cnames, hlinked.cnames⟩
  · obtain ⟨s', hs'⟩ : ∃ s', uniquifyIdentityColumns { st with pkCnames := [], filterPkColumnsCalled := true } =
        .ok (st.identityCnames, s') := uniquifyIdentityColumns_of_feed h rfl rfl
    exact ⟨_, s', hs', hlinked.length_cnames, hlinked.cnames⟩

/-- The only key is an identity column. -/
theorem feed_identity_sole_key :
    ∃ fed st, feed intPrefs 0 { stname := dboT, pkCnames := [cnameA] } [identityColumn "a", plainColumn "b" "INT"] =
        .ok (fed, st) ∧
      (fed.filter FedColumn.isIdentity).length ≤ 1 ∧ ∃ st', st.filterPkColumns = .ok ([], st') := by
  obtain ⟨fed, st, hfeed⟩ : ∃ fed st, feed intPrefs 0 { stname := dboT, pkCnames := [cnameA] }
    [identityColumn "a", plainColumn "b" "INT"] = .ok (fed, st) := ⟨_, _, rfl⟩
  obtain ⟨hlength, keys, st', hkeys, hnil, -⟩ := feed_identity hfeed
  have hclause : ∃ r ∈ fed, r.isIdentity = true := by
    cases hfeed
    exact ⟨_, List.mem_cons_self, rfl⟩
  rw [hnil hclause] at hkeys
  exact ⟨fed, st, hfeed, hlength, st', hkeys⟩

/-! ### Identity columns to make unique -/

/-- The keys without the columns that the rules reject. -/
def keysLeft (prefs : DdlTableMigratorPrefs) (pkCnames : List DdlCname) (columns : List DdlColumn) : List DdlCname :=
  columns.foldl (fun keys column => if RejectedByRules prefs column then keys.erase column.cname else keys) pkCnames

/-- Behind the columns `before` a column gets an identity clause: it is the first identity column, and the only
key that is left if there is one. -/
def GetsClause (prefs : DdlTableMigratorPrefs) (pkCnames : List DdlCname) (before : List DdlColumn)
    (column : DdlColumn) : Prop :=
  IdentityByRules prefs column ∧ (∀ c ∈ before, ¬ IdentityByRules prefs c) ∧
    (keysLeft prefs pkCnames before = [] ∨ keysLeft prefs pkCnames before = [column.cname])

/-- Each column with an identity clause is among those to make unique. -/
def ClausesUniquified (fed : List FedColumn) (st : PkvsidTableMigrator) : Prop :=
  ∀ r ∈ fed, r.isIdentity = true →
    ∃ cnames st', st.uniquifyIdentityColumns = .ok (cnames, st') ∧ r.column.cname ∈ cnames

/-- In front of the first identity column. -/
theorem feed_of_no_identity {columns : List DdlColumn} {fed : List FedColumn}
    (h : feed prefs fuel { stname, pkCnames } columns = .ok (fed, st))
    (hnone : ∀ c ∈ columns, ¬ IdentityByRules prefs c) :
    st = { stname, pkCnames := keysLeft prefs pkCnames columns } ∧ ∀ r ∈ fed, r.isIdentity = false := by
  induction columns generalizing pkCnames fed with
  | nil =>
      cases h
      exact ⟨rfl, fun r hr => by cases hr⟩
  | cons column columns ih =>
      obtain ⟨r, st₁, fed', hr, hfed', rfl⟩ := feed_cons_eq_ok_iff.mp h
      obtain ⟨rfl, hturn⟩ := turn_of_feedColumn hr
      obtain ⟨hcolumn, hcolumns⟩ := List.forall_mem_cons.mp hnone
      cases hturn with
      | rejected hrules hrejected =>
          obtain ⟨hst, hclauses⟩ := ih hfed' hcolumns
          refine ⟨?_, List.forall_mem_cons.mpr ⟨FedColumn.isIdentity_of_rejected hrejected, hclauses⟩⟩
          rw [hst, keysLeft, keysLeft, List.foldl_cons, if_pos hrules]
      | accepted hrules hidentity hrejected hclause =>
          obtain ⟨hst, hclauses⟩ := ih hfed' hcolumns
          refine ⟨?_, List.forall_mem_cons.mpr ⟨hclause, hclauses⟩⟩
          rw [hst, keysLeft, keysLeft, List.foldl_cons, if_neg hrules]
      | conflict hrules _ _ => exact absurd hrules hcolumn
      | identity hrules _ _ _ => exact absurd hrules hcolumn

/-- Behind an identity column none gets a clause, and the next one clears the list. -/
theorem feed_of_identityCnt {columns : List DdlColumn} {fed : List FedColumn} (hcnt : st.identityCnt ≠ 0)
    (h : feed prefs fuel st columns = .ok (fed, st')) :
    (∀ r ∈ fed, r.isIdentity = false) ∧
      st'.identityCnames = if ∃ c ∈ columns, IdentityByRules prefs c then [] else st.identityCnames := by
  induction columns generalizing st fed with
  | nil =>
      cases h
      refine ⟨fun r hr => (by cases hr), ?_⟩
      rw [if_neg]
      rintro ⟨c, hc, -⟩
      cases hc
  | cons column columns ih =>
      obtain ⟨r, st₁, fed', hr, hfed', rfl⟩ := feed_cons_eq_ok_iff.mp h
      obtain ⟨rfl, hturn⟩ := turn_of_feedColumn hr
      simp only [List.exists_mem_cons_iff]
      cases hturn with
      | rejected hrules hrejected =>
          obtain ⟨hclauses, hcnames⟩ := ih (by exact hcnt) hfed'
          refine ⟨List.forall_mem_cons.mpr ⟨FedColumn.isIdentity_of_rejected hrejected, hclauses⟩, ?_⟩
          rw [hcnames]
          exact if_congr (or_iff_right fun h => h.2 hrules).symm rfl rfl
      | accepted hrules hidentity hrejected hclause =>
          obtain ⟨hclauses, hcnames⟩ := ih hcnt hfed'
          refine ⟨List.forall_mem_cons.mpr ⟨hclause, hclauses⟩, ?_⟩
          rw [hcnames]
          refine if_congr (or_iff_right fun h => ?_).symm rfl rfl
          exact absurd (hidentity.symm.trans h.1) Bool.false_ne_true
      | conflict hrules _ hrejected =>
          obtain ⟨hclauses, hcnames⟩ := ih (Nat.succ_ne_zero _) hfed'
          refine ⟨List.forall_mem_cons.mpr ⟨FedColumn.isIdentity_of_rejected hrejected, hclauses⟩, ?_⟩
          rw [hcnames, if_pos (Or.inl hrules)]
          exact ite_self _
      | identity _ _ hzero _ => exact absurd hzero hcnt

theorem clausesUniquified_iff {columns : List DdlColumn} {fed : List FedColumn}
    (h : feed prefs fuel { stname, pkCnames } columns = .ok (fed, st)) :
    ClausesUniquified fed st ↔ ∀ r ∈ fed, r.isIdentity = true → r.column.cname ∈ st.identityCnames := by
  obtain ⟨st', hst'⟩ := uniquifyIdentityColumns_of_feed h rfl rfl
  unfold ClausesUniquified
  rw [hst']
  constructor
  · intro hall r hr hclause
    obtain ⟨_, _, hcnames, hmem⟩ := hall r hr hclause
    cases hcnames
    exact hmem
  · exact fun hall r hr hclause => ⟨_, _, rfl, hall r hr hclause⟩

/-- A run up to the first identity column and on from there: no other column gets a clause. -/
theorem feed_at_identity {before behind : List DdlColumn} {column : DdlColumn} {fed : List FedColumn}
    (h : feed prefs fuel { stname, pkCnames } (before ++ column :: behind) = .ok (fed, st))
    (hidentity : IdentityByRules prefs column) (hfirst : ∀ c ∈ before, ¬ IdentityByRules prefs c) :
    ∃ r ∈ fed, r.column = column ∧ (∀ r' ∈ fed, r'.isIdentity = true → r' = r) ∧
      (r.isIdentity = true ↔ keysLeft prefs pkCnames before = [] ∨ keysLeft prefs pkCnames before = [column.cname]) ∧
      (r.isIdentity = true →
        st.identityCnames = if ∃ c ∈ behind, IdentityByRules prefs c then [] else [column.cname]) := by
  obtain ⟨fed₁, st₁, _, hbefore, hrest, rfl⟩ := feed_append_eq_ok_iff.mp h
  obtain ⟨r, st₂, fed₂, hr, hbehind, rfl⟩ := feed_cons_eq_ok_iff.mp hrest
  obtain ⟨rfl, hclauses⟩ := feed_of_no_identity hbefore hfirst
  obtain ⟨rfl, hturn⟩ := turn_of_feedColumn hr
  obtain ⟨hcnt, hturn⟩ := hturn.of_identity hidentity
  obtain ⟨hclauses', hcnames⟩ := feed_of_identityCnt (by rw [hcnt]; exact Nat.succ_ne_zero _) hbehind
  refine ⟨r, by simp, rfl, ?_, ?_, ?_⟩
  · intro r' hr' hclause
    rcases List.mem_append.mp hr' with hold | hnew
    · exact absurd ((hclauses r' hold).symm.trans hclause) Bool.false_ne_true
    · rcases List.mem_cons.mp hnew with heq | hnew
      · exact heq
      · exact absurd ((hclauses' r' hnew).symm.trans hclause) Bool.false_ne_true
  · rw [← clearSoleKey_eq_nil_iff]
    rcases hturn with ⟨hnone, hconflict⟩ | ⟨hclause, hkeys, -⟩
    · refine iff_of_false (fun hclause => ?_) (hconflict.resolve_right fun hcnt => hcnt rfl)
      exact absurd (hnone.symm.trans hclause) Bool.false_ne_true
    · exact iff_of_true hclause hkeys
  · intro hclause
    rcases hturn with ⟨hnone, -⟩ | ⟨-, -, hcname⟩
    · exact absurd (hnone.symm.trans hclause) Bool.false_ne_true
    · rw [hcnames, hcname]
      rfl

/-- The columns with a clause are made unique exactly when no identity column follows the one that gets it. -/
theorem feed_clausesUniquified_iff {columns : List DdlColumn} {fed : List FedColumn}
    (h : feed prefs fuel { stname, pkCnames } columns = .ok (fed, st)) :
    ClausesUniquified fed st ↔ ∀ before column behind, columns = before ++ column :: behind →
      GetsClause prefs pkCnames before column → ∀ c ∈ behind, ¬ IdentityByRules prefs c := by
  rw [clausesUniquified_iff h]
  constructor
  · rintro hunique before column behind rfl ⟨hidentity, hfirst, hkeys⟩ c hc hrules
    obtain ⟨r, hr, rfl, -, hclause, hcnames⟩ := feed_at_identity h hidentity hfirst
    have hmem := hunique r hr (hclause.mpr hkeys)
    rw [hcnames (hclause.mpr hkeys), if_pos ⟨c, hc, hrules⟩] at hmem
    cases hmem
  · intro hnone r hr hclause
    cases hfind : columns.find? (IdentityByRules prefs ·) with
    | none =>
        have hno : ∀ c ∈ columns, ¬ IdentityByRules prefs c := by simpa using hfind
        exact absurd (((feed_of_no_identity h hno).2 r hr).symm.trans hclause) Bool.false_ne_true
    | some column =>
        obtain ⟨hidentity, before, behind, rfl, hfirst⟩ := List.find?_eq_some_iff_append.mp hfind
        have hidentity : IdentityByRules prefs column := by simpa using hidentity
        have hfirst : ∀ c ∈ before, ¬ IdentityByRules prefs c := by simpa using hfirst
        obtain ⟨r', hr', rfl, honly, hclause', hcnames⟩ := feed_at_identity h hidentity hfirst
        obtain rfl := honly r hr hclause
        have hbehind := hnone before _ behind rfl ⟨hidentity, hfirst, hclause'.mp hclause⟩
        rw [hcnames hclause, if_neg fun ⟨c, hc, hrules⟩ => hbehind c hc hrules]
        exact List.mem_singleton_self _

/-- The column behind the identity column is none. -/
theorem feed_clausesUniquified_sole_key :
    ∃ fed st, feed intPrefs 0 { stname := dboT, pkCnames := [cnameA] } [identityColumn "a", plainColumn "b" "INT"] =
        .ok (fed, st) ∧ ClausesUniquified fed st := by
  obtain ⟨fed, st, hfeed⟩ : ∃ fed st, feed intPrefs 0 { stname := dboT, pkCnames := [cnameA] }
    [identityColumn "a", plainColumn "b" "INT"] = .ok (fed, st) := ⟨_, _, rfl⟩
  refine ⟨fed, st, hfeed, (feed_clausesUniquified_iff hfeed).mpr fun before column behind hcolumns _ c hc hrules => ?_⟩
  cases before with
  | nil =>
      obtain ⟨-, rfl⟩ := List.cons.inj hcolumns
      obtain rfl := List.mem_singleton.mp hc
      exact Bool.false_ne_true hrules.1
  | cons d before =>
      have hlength : 1 = (before ++ column :: behind).length := congrArg List.length (List.cons.inj hcolumns).2
      simp only [List.length_append, List.length_cons] at hlength
      have hpos := List.length_pos_of_mem hc
      omega

/-- Of two identity columns the first has got its clause when the second is rejected, and is not made unique. -/
theorem feed_clause_not_uniquified :
    ∃ fed st, feed intPrefs 0 { stname := dboT, pkCnames := [cnameA] } [identityColumn "a", identityColumn "b"] =
        .ok (fed, st) ∧ (∃ r ∈ fed, r.isIdentity = true ∧ r.column.cname = cnameA) ∧
      (∃ st', st.uniquifyIdentityColumns = .ok ([], st')) ∧ ¬ ClausesUniquified fed st := by
  refine ⟨_, _, rfl, ⟨_, List.mem_cons_self, rfl, rfl⟩, ⟨_, rfl⟩, ?_⟩
  intro hall
  obtain ⟨cnames, st', hcnames, hmem⟩ := hall _ List.mem_cons_self rfl
  cases hcnames
  cases hmem

end Fresh

end Feed

end PkvsidTableMigrator

end Middle.MiddleApp
