import Middle.SqlsvrDdl.FkMapper

/-! The metadata of a source database (`sqlsvr_ddl_queries`) and the hiding of a rejected column in it.
Hiding only ever sets flags: all that hidings do to the metadata is given by the set of the columns they
were called for, whatever their order. -/

namespace Middle.SqlsvrDdl

open Lib Universals NormalDdl

structure SqlsvrDdlTcRec where
  hidden : Bool := false
  cname : DdlCname
  defaultVal : Option Text := none
  nullable : Bool
  datatype : Text
  charMaxLen : Option Int32 := none
  charOctLen : Option Int32 := none
  numPrec : Option UInt8 := none
  numPrecRad : Option Int16 := none
  numScale : Option Int32 := none
  dtPrec : Option Int16 := none
  charsetName : Option Text := none
  identity : Bool
  deriving DecidableEq

structure SqlsvrDdlCkRec where
  hidden : Bool := false
  constraintName : Text
  checkClause : Text
  deriving DecidableEq

structure SqlsvrDdlPkRec where
  hidden : Bool := false
  deriving DecidableEq

structure SqlsvrDdlUqRec where
  hidden : Bool := false
  constraintName : Text
  deriving DecidableEq

structure SqlsvrDdlQueries where
  ckMapper : UnorderedMap DdlStcname (List SqlsvrDdlCkRec)
  fkMapper : SqlsvrDdlFkMapper
  pkMapper : UnorderedMap DdlStcname SqlsvrDdlPkRec
  uqMapper : UnorderedMap DdlStcname (List SqlsvrDdlUqRec)
  tcMapper : UnorderedMap DdlStname (List SqlsvrDdlTcRec)

/-- The loop of `hide_rejected_column` over the columns of a table, which stops at the first one of the
name. -/
def hideFirst (cname : DdlCname) : List SqlsvrDdlTcRec → List SqlsvrDdlTcRec
  | [] => []
  | tcRec :: tcRecs =>
      if tcRec.cname = cname then { tcRec with hidden := true } :: tcRecs
      else tcRec :: hideFirst cname tcRecs

/-- The turn of the loop of `hide_rejected_column` over the references to a column. -/
def SqlsvrDdlFkMapper.hideReferencing (m : SqlsvrDdlFkMapper) (reverseRec : SqlsvrDdlFkReverseRec) :
    Except Fault SqlsvrDdlFkMapper := do
  match ← m.findConstraintName reverseRec.constraintName with
  | none => return m
  | some stcname => return m.hide stcname

namespace SqlsvrDdlQueries

def findCk (q : SqlsvrDdlQueries) (stcname : DdlStcname) : Option (List SqlsvrDdlCkRec) :=
  q.ckMapper.find stcname

def findFk (q : SqlsvrDdlQueries) (stcname : DdlStcname) (unhidden : Bool) : Option SqlsvrDdlFkRec :=
  q.fkMapper.find stcname unhidden

def findPk (q : SqlsvrDdlQueries) (stcname : DdlStcname) (unhidden : Bool) : Option SqlsvrDdlPkRec :=
  (q.pkMapper.find stcname).filter fun pkRec => !(unhidden && pkRec.hidden)

def findTc (q : SqlsvrDdlQueries) (stname : DdlStname) : Option (List SqlsvrDdlTcRec) :=
  q.tcMapper.find stname

def findUq (q : SqlsvrDdlQueries) (stcname : DdlStcname) : Option (List SqlsvrDdlUqRec) :=
  q.uqMapper.find stcname

/-- `insert_uq`, which copies the records and so leaves out their flags. -/
def insertUq (q : SqlsvrDdlQueries) (stcname : DdlStcname) (uqRecs : List SqlsvrDdlUqRec) :
    SqlsvrDdlQueries × Bool :=
  let inserted := q.uqMapper.insert stcname (uqRecs.map fun uqRec => ⟨false, uqRec.constraintName⟩)
  ({ q with uqMapper := inserted.1 }, inserted.2)

/-- Metadata as they are loaded, from these rows of the foreign key query of each connection. -/
structure Loaded (conns : List (List FkRow)) (q : SqlsvrDdlQueries) : Prop where
  fk : loadFkMapper conns = .ok ⟨q.fkMapper, []⟩
  ck : ∀ k, ∀ ckRec ∈ (q.findCk k).getD [], ckRec.hidden = false
  uq : ∀ k, ∀ uqRec ∈ (q.findUq k).getD [], uqRec.hidden = false
  pk : ∀ k pkRec, q.findPk k false = some pkRec → pkRec.hidden = false
  tc : ∀ stname, ∀ tcRec ∈ (q.findTc stname).getD [], tcRec.hidden = false

theorem loaded_of_entries {conns : List (List FkRow)} {q : SqlsvrDdlQueries}
    (fk : loadFkMapper conns = .ok ⟨q.fkMapper, []⟩)
    (ck : ∀ e ∈ q.ckMapper.entries, ∀ ckRec ∈ e.2, ckRec.hidden = false)
    (uq : ∀ e ∈ q.uqMapper.entries, ∀ uqRec ∈ e.2, uqRec.hidden = false)
    (pk : ∀ e ∈ q.pkMapper.entries, e.2.hidden = false)
    (tc : ∀ e ∈ q.tcMapper.entries, ∀ tcRec ∈ e.2, tcRec.hidden = false) : q.Loaded conns where
  fk := fk
  ck k := by
    cases hfind : q.findCk k with
    | none => simp
    | some ckRecs => exact ck _ (UnorderedMap.find_eq_some_iff.mp hfind)
  uq k := by
    cases hfind : q.findUq k with
    | none => simp
    | some uqRecs => exact uq _ (UnorderedMap.find_eq_some_iff.mp hfind)
  pk k pkRec hfind := by
    rw [findPk, Option.filter_eq_some_iff] at hfind
    exact pk _ (UnorderedMap.find_eq_some_iff.mp hfind.1)
  tc stname := by
    cases hfind : q.findTc stname with
    | none => simp
    | some tcRecs => exact tc _ (UnorderedMap.find_eq_some_iff.mp hfind)

/-- What `hide_rejected_column` asserts: the metadata has the column. -/
def hasColumn (q : SqlsvrDdlQueries) (stcname : DdlStcname) : Bool :=
  (q.findTc stcname.stname).any fun tcRecs => tcRecs.any (·.cname = stcname.cname)

/-- `hide_rejected_column`. -/
def hideRejectedColumn (q : SqlsvrDdlQueries) (rejectedStcname : DdlStcname) :
    Except Fault SqlsvrDdlQueries :=
  if !q.hasColumn rejectedStcname then .error .assertion
  else do
    let fkMapper :=
      if (q.findFk rejectedStcname true).isSome then q.fkMapper.hide rejectedStcname else q.fkMapper
    let fkMapper ← (fkMapper.findReverse rejectedStcname).foldlM SqlsvrDdlFkMapper.hideReferencing fkMapper
    return { q with
      tcMapper := q.tcMapper.modify rejectedStcname.stname (hideFirst rejectedStcname.cname)
      ckMapper := q.ckMapper.modify rejectedStcname
        (List.map fun ckRec => { ckRec with hidden := true })
      fkMapper
      uqMapper := q.uqMapper.modify rejectedStcname
        (List.map fun uqRec => { uqRec with hidden := true }) }

end SqlsvrDdlQueries

/-! ### Hiding as a set -/

/-- The first record of each name `p` picks hidden. -/
def hideFirsts (p : DdlCname → Bool) : List SqlsvrDdlTcRec → List SqlsvrDdlTcRec
  | [] => []
  | tcRec :: tcRecs =>
      { tcRec with hidden := tcRec.hidden || p tcRec.cname } ::
        hideFirsts (fun cname => p cname && cname ≠ tcRec.cname) tcRecs

theorem hideFirsts_false (tcRecs : List SqlsvrDdlTcRec) : hideFirsts (fun _ => false) tcRecs = tcRecs := by
  induction tcRecs with
  | nil => rfl
  | cons tcRec tcRecs ih => simp [hideFirsts, ih]

theorem hideFirst_eq_hideFirsts (cname : DdlCname) (tcRecs : List SqlsvrDdlTcRec) :
    hideFirst cname tcRecs = hideFirsts (fun c => c = cname) tcRecs := by
  induction tcRecs with
  | nil => rfl
  | cons tcRec tcRecs ih =>
      unfold hideFirst hideFirsts
      by_cases hcname : tcRec.cname = cname
      · simp [hcname, hideFirsts_false]
      · have hrest : (fun c => decide (c = cname) && decide (c ≠ tcRec.cname)) =
            fun c => decide (c = cname) := by
          funext c
          by_cases hc : c = cname
          · simp [hc, Ne.symm hcname]
          · simp [hc]
        simp only [hcname, if_false, hrest, ih, decide_false, Bool.or_false]

theorem hideFirsts_hideFirsts (p q : DdlCname → Bool) (tcRecs : List SqlsvrDdlTcRec) :
    hideFirsts p (hideFirsts q tcRecs) = hideFirsts (fun c => q c || p c) tcRecs := by
  induction tcRecs generalizing p q with
  | nil => rfl
  | cons tcRec tcRecs ih =>
      simp only [hideFirsts, ih, Bool.or_assoc, Bool.and_or_distrib_right]

namespace SqlsvrDdlFkMapper

/-- The records under the columns `p` picks hidden. -/
def hideWhere (p : DdlStcname → Bool) (m : SqlsvrDdlFkMapper) : SqlsvrDdlFkMapper :=
  { m with map := m.map.mapValues fun k fkRec => { fkRec with hidden := fkRec.hidden || p k } }

theorem hideWhere_hideWhere (p q : DdlStcname → Bool) (m : SqlsvrDdlFkMapper) :
    (m.hideWhere q).hideWhere p = m.hideWhere fun k => q k || p k := by
  simp only [hideWhere, UnorderedMap.mapValues_mapValues, Bool.or_assoc]

theorem hideWhere_false (m : SqlsvrDdlFkMapper) : m.hideWhere (fun _ => false) = m := by
  unfold hideWhere
  rw [UnorderedMap.mapValues_eq_self]
  intro e he
  rw [Bool.or_false]

theorem hide_eq_hideWhere (m : SqlsvrDdlFkMapper) (stcname : DdlStcname) :
    m.hide stcname = m.hideWhere (fun k => k = stcname) := by
  unfold hide hideWhere UnorderedMap.modify
  congr 1
  apply UnorderedMap.mapValues_congr
  intro e he
  by_cases hkey : e.1 = stcname
  · simp [hkey]
  · simp [hkey]

/-- Hiding through a pointer that is null where the record is hidden already. -/
theorem hide_of_find (m : SqlsvrDdlFkMapper) (stcname : DdlStcname) :
    (if (m.find stcname true).isSome then m.hide stcname else m) = m.hideWhere (fun k => k = stcname) := by
  split
  · exact m.hide_eq_hideWhere stcname
  · rename_i hfind
    unfold hideWhere
    rw [UnorderedMap.mapValues_eq_self]
    intro e he
    by_cases hkey : e.1 = stcname
    · have hrec : m.map.find stcname = some e.2 := UnorderedMap.find_eq_some_iff.mpr (hkey ▸ he)
      have hhidden : e.2.hidden = true := by simpa [find, hrec] using hfind
      rw [hhidden, Bool.true_or, ← hhidden]
    · simp [hkey]

/-- A reference is followed to the first record of its constraint name. -/
theorem hideReferencing_eq (m : SqlsvrDdlFkMapper) (reverseRec : SqlsvrDdlFkReverseRec) :
    m.hideReferencing reverseRec =
      if m.constraintNameMap.find reverseRec.constraintName = some none then .error .undefined
      else .ok (m.hideWhere fun k => m.constraintNameMap.find reverseRec.constraintName = some (some k)) := by
  unfold hideReferencing findConstraintName
  cases hname : m.constraintNameMap.find reverseRec.constraintName with
  | none => simp [bind, Except.bind, pure, Except.pure, hideWhere_false]
  | some pointer =>
      cases pointer with
      | none => simp [bind, Except.bind]
      | some stcname =>
          have hhide := m.hide_of_find stcname
          cases hfind : m.find stcname true with
          | none => simpa [bind, Except.bind, pure, Except.pure, hfind, eq_comm] using hhide
          | some fkRec => simpa [bind, Except.bind, pure, Except.pure, hfind, eq_comm] using hhide

/-- A reference of these whose constraint name leads to no record. -/
def Dangles (m : SqlsvrDdlFkMapper) (reverseRecs : List SqlsvrDdlFkReverseRec) : Bool :=
  reverseRecs.any fun r => m.constraintNameMap.find r.constraintName = some none

/-- The columns these references lead to by their constraint names. -/
def leadsTo (m : SqlsvrDdlFkMapper) (reverseRecs : List SqlsvrDdlFkReverseRec) (k : DdlStcname) : Bool :=
  reverseRecs.any fun r => m.constraintNameMap.find r.constraintName = some (some k)

theorem foldlM_hideReferencing (reverseRecs : List SqlsvrDdlFkReverseRec) (m : SqlsvrDdlFkMapper) :
    reverseRecs.foldlM hideReferencing m =
      if m.Dangles reverseRecs then .error .undefined else .ok (m.hideWhere (m.leadsTo reverseRecs)) := by
  induction reverseRecs generalizing m with
  | nil =>
      calc
        [].foldlM hideReferencing m = .ok m := rfl
        _ = .ok (m.hideWhere (m.leadsTo [])) := congrArg Except.ok m.hideWhere_false.symm
  | cons reverseRec reverseRecs ih =>
      rw [List.foldlM_cons, hideReferencing_eq]
      by_cases hdangles : m.constraintNameMap.find reverseRec.constraintName = some none
      · have hcons : m.Dangles (reverseRec :: reverseRecs) = true := by simp [Dangles, hdangles]
        rw [if_pos hdangles, if_pos hcons]
        rfl
      · have hcons : m.Dangles (reverseRec :: reverseRecs) = m.Dangles reverseRecs := by
          simp [Dangles, hdangles]
        rw [if_neg hdangles, hcons]
        dsimp only [bind, Except.bind]
        rw [ih, hideWhere_hideWhere]
        rfl

/-- The columns whose records a set of rejected columns hides: these columns, and those that references to
them lead to. -/
def Hits (m : SqlsvrDdlFkMapper) (K : Finset DdlStcname) (k : DdlStcname) : Prop :=
  k ∈ K ∨ ∃ c ∈ K, m.leadsTo (m.findReverse c) k = true

instance (m : SqlsvrDdlFkMapper) (K : Finset DdlStcname) : DecidablePred (m.Hits K) := fun k =>
  inferInstanceAs (Decidable (k ∈ K ∨ ∃ c ∈ K, m.leadsTo (m.findReverse c) k = true))

def hideAll (K : Finset DdlStcname) (m : SqlsvrDdlFkMapper) : SqlsvrDdlFkMapper :=
  m.hideWhere fun k => m.Hits K k

theorem hideAll_empty (m : SqlsvrDdlFkMapper) : m.hideAll ∅ = m := by
  have hnone : (fun k => decide (m.Hits ∅ k)) = fun _ => false := by
    funext k
    simp [Hits]
  rw [hideAll, hnone, hideWhere_false]

theorem hideAll_singleton (stcname : DdlStcname) (m : SqlsvrDdlFkMapper) :
    m.hideAll {stcname} =
      (m.hideWhere fun k => k = stcname).hideWhere (m.leadsTo (m.findReverse stcname)) := by
  rw [hideWhere_hideWhere, hideAll]
  congr 1
  funext k
  simp [Hits]

theorem hits_union (m : SqlsvrDdlFkMapper) (K L : Finset DdlStcname) (k : DdlStcname) :
    m.Hits (K ∪ L) k ↔ m.Hits K k ∨ m.Hits L k := by
  unfold Hits
  simp only [Finset.mem_union, or_and_right, exists_or]
  exact or_or_or_comm

theorem hideAll_hideAll (K L : Finset DdlStcname) (m : SqlsvrDdlFkMapper) :
    (m.hideAll K).hideAll L = m.hideAll (K ∪ L) := by
  unfold hideAll
  rw [hideWhere_hideWhere]
  congr 1
  funext k
  rw [← Bool.decide_or, decide_eq_decide]
  exact (m.hits_union K L k).symm

end SqlsvrDdlFkMapper

namespace SqlsvrDdlQueries

/-- The metadata after columns have been rejected. -/
def hideAll (K : Finset DdlStcname) (q : SqlsvrDdlQueries) : SqlsvrDdlQueries where
  ckMapper := q.ckMapper.mapValues fun k ckRecs =>
    ckRecs.map fun ckRec => { ckRec with hidden := ckRec.hidden || decide (k ∈ K) }
  fkMapper := q.fkMapper.hideAll K
  pkMapper := q.pkMapper
  uqMapper := q.uqMapper.mapValues fun k uqRecs =>
    uqRecs.map fun uqRec => { uqRec with hidden := uqRec.hidden || decide (k ∈ K) }
  tcMapper := q.tcMapper.mapValues fun stname =>
    hideFirsts fun cname => ∃ k ∈ K, k.stname = stname ∧ k.cname = cname

theorem hideAll_empty (q : SqlsvrDdlQueries) : q.hideAll ∅ = q := by
  unfold hideAll
  rw [SqlsvrDdlFkMapper.hideAll_empty, UnorderedMap.mapValues_eq_self, UnorderedMap.mapValues_eq_self,
    UnorderedMap.mapValues_eq_self]
  · intro e he
    simp [hideFirsts_false]
  · intro e he
    simp
  · intro e he
    simp

theorem hideAll_hideAll (K L : Finset DdlStcname) (q : SqlsvrDdlQueries) :
    (q.hideAll K).hideAll L = q.hideAll (K ∪ L) := by
  have htc : ∀ (stname : DdlStname) (tcRecs : List SqlsvrDdlTcRec),
      hideFirsts (fun cname => ∃ k ∈ L, k.stname = stname ∧ k.cname = cname)
        (hideFirsts (fun cname => ∃ k ∈ K, k.stname = stname ∧ k.cname = cname) tcRecs) =
      hideFirsts (fun cname => ∃ k ∈ K ∪ L, k.stname = stname ∧ k.cname = cname) tcRecs := by
    intro stname tcRecs
    rw [hideFirsts_hideFirsts]
    congr 1
    funext cname
    rw [← Bool.decide_or, decide_eq_decide]
    simp only [Finset.mem_union, or_and_right, exists_or]
  unfold hideAll
  simp only [UnorderedMap.mapValues_mapValues, SqlsvrDdlFkMapper.hideAll_hideAll, htc]
  simp [Function.comp_def, Bool.or_assoc]

theorem hideAll_singleton (q : SqlsvrDdlQueries) (stcname : DdlStcname) :
    q.hideAll {stcname} =
      { ckMapper := q.ckMapper.modify stcname (List.map fun ckRec => { ckRec with hidden := true })
        fkMapper := q.fkMapper.hideAll {stcname}
        pkMapper := q.pkMapper
        uqMapper := q.uqMapper.modify stcname (List.map fun uqRec => { uqRec with hidden := true })
        tcMapper := q.tcMapper.modify stcname.stname (hideFirst stcname.cname) } := by
  unfold hideAll UnorderedMap.modify
  congr 1
  · apply UnorderedMap.mapValues_congr
    intro e he
    by_cases hkey : e.1 = stcname
    · simp [hkey]
    · simp [hkey]
  · apply UnorderedMap.mapValues_congr
    intro e he
    by_cases hkey : e.1 = stcname
    · simp [hkey]
    · simp [hkey]
  · apply UnorderedMap.mapValues_congr
    intro e he
    by_cases hkey : e.1 = stcname.stname
    · simp [hkey, hideFirst_eq_hideFirsts, eq_comm]
    · simp [hkey, Ne.symm hkey, hideFirsts_false]

/-- A rejected column hides what the set of it alone does. -/
theorem hideRejectedColumn_eq (q : SqlsvrDdlQueries) (stcname : DdlStcname) :
    q.hideRejectedColumn stcname =
      if !q.hasColumn stcname then .error .assertion
      else if q.fkMapper.Dangles (q.fkMapper.findReverse stcname) then .error .undefined
      else .ok (q.hideAll {stcname}) := by
  rw [hideAll_singleton, SqlsvrDdlFkMapper.hideAll_singleton]
  unfold hideRejectedColumn findFk
  rw [q.fkMapper.hide_of_find]
  dsimp only
  rw [SqlsvrDdlFkMapper.foldlM_hideReferencing]
  split
  · rfl
  · change (if q.fkMapper.Dangles (q.fkMapper.findReverse stcname) then _ else _) >>= _ = _
    split
    · rfl
    · rfl

end SqlsvrDdlQueries

/-! ### What is found after hiding -/

/-- A function that does not read the flag does not tell a hidden record from the record. -/
theorem filterMap_hideFirsts {α : Type} {f : SqlsvrDdlTcRec → Option α}
    (hf : ∀ tcRec b, f { tcRec with hidden := b } = f tcRec) (p : DdlCname → Bool)
    (tcRecs : List SqlsvrDdlTcRec) : (hideFirsts p tcRecs).filterMap f = tcRecs.filterMap f := by
  induction tcRecs generalizing p with
  | nil => rfl
  | cons tcRec tcRecs ih => rw [hideFirsts, List.filterMap_cons, List.filterMap_cons, ih, hf]

theorem map_hideFirsts {α : Type} {f : SqlsvrDdlTcRec → α}
    (hf : ∀ tcRec b, f { tcRec with hidden := b } = f tcRec) (p : DdlCname → Bool)
    (tcRecs : List SqlsvrDdlTcRec) : (hideFirsts p tcRecs).map f = tcRecs.map f := by
  rw [← List.filterMap_eq_map]
  apply filterMap_hideFirsts
  intro tcRec b
  exact congrArg some (hf tcRec b)

namespace SqlsvrDdlQueries

variable (q : SqlsvrDdlQueries) (K : Finset DdlStcname)

theorem findTc_hideAll (stname : DdlStname) :
    (q.hideAll K).findTc stname =
      (q.findTc stname).map (hideFirsts fun cname => ∃ k ∈ K, k.stname = stname ∧ k.cname = cname) :=
  UnorderedMap.find_mapValues _ _ _

theorem findCk_hideAll (stcname : DdlStcname) :
    (q.hideAll K).findCk stcname = (q.findCk stcname).map
      (List.map fun ckRec => { ckRec with hidden := ckRec.hidden || decide (stcname ∈ K) }) :=
  UnorderedMap.find_mapValues _ _ _

theorem findUq_hideAll (stcname : DdlStcname) :
    (q.hideAll K).findUq stcname = (q.findUq stcname).map
      (List.map fun uqRec => { uqRec with hidden := uqRec.hidden || decide (stcname ∈ K) }) :=
  UnorderedMap.find_mapValues _ _ _

theorem findFk_hideAll (stcname : DdlStcname) :
    (q.hideAll K).findFk stcname true =
      if q.fkMapper.Hits K stcname then none else q.findFk stcname true := by
  have hfind : (q.hideAll K).fkMapper.map.find stcname = (q.fkMapper.map.find stcname).map fun fkRec =>
      { fkRec with hidden := fkRec.hidden || decide (q.fkMapper.Hits K stcname) } :=
    UnorderedMap.find_mapValues _ _ _
  unfold findFk SqlsvrDdlFkMapper.find
  rw [hfind]
  cases q.fkMapper.map.find stcname with
  | none => simp
  | some fkRec =>
    by_cases hhits : q.fkMapper.Hits K stcname <;> simp [hhits, Option.filter]

theorem hasColumn_hideAll (stcname : DdlStcname) : (q.hideAll K).hasColumn stcname = q.hasColumn stcname := by
  unfold hasColumn
  rw [findTc_hideAll, Option.any_map]
  cases q.findTc stcname.stname with
  | none => rfl
  | some tcRecs =>
      have hcnames : (hideFirsts (fun cname => ∃ k ∈ K, k.stname = stcname.stname ∧ k.cname = cname) tcRecs).map
          SqlsvrDdlTcRec.cname = tcRecs.map SqlsvrDdlTcRec.cname := map_hideFirsts (fun _ _ => rfl) _ _
      have hany : ∀ recs : List SqlsvrDdlTcRec, recs.any (·.cname = stcname.cname) =
          (recs.map SqlsvrDdlTcRec.cname).any (· = stcname.cname) := by
        intro recs
        rw [List.any_map]
        rfl
      rw [Option.any_some, Option.any_some, hany tcRecs, ← hcnames, ← hany]

end SqlsvrDdlQueries

end Middle.SqlsvrDdl
