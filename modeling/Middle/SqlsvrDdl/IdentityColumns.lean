import Middle.NormalDdl.CreateTable
import Middle.SqlsvrDdl.Constraints

/-! When `uniquify_identity_column` leaves a column with a unique constraint of its own. It gives one to a
column without unique records. For any other column the insert behind the search for a name fails, as the
column has its records already: so it gets through only where it takes a shared constraint for one of its
own. -/

namespace Middle.SqlsvrDdl

open Lib Universals NormalDdl

/-- The visible columns of a table but one, by their full names. -/
def siblings (tcRecs : List SqlsvrDdlTcRec) (stcname : DdlStcname) : List DdlStcname :=
  (tcRecs.filter fun tcRec => !(tcRec.hidden || tcRec.cname = .ofText stcname.columnName)).map
    (·.stcname stcname.stname)

/-- The names of the constraints that columns have records of. -/
def constraintNames (q : SqlsvrDdlQueries) (stcnames : List DdlStcname) : List Text :=
  stcnames.flatMap fun stcname => ((q.findUq stcname).getD []).map SqlsvrDdlUqRec.constraintName

namespace UqConstraintSharing

/-- Constraints marked as shared. -/
def share (uqConstraints : UqConstraintSharing) (names : List Text) : UqConstraintSharing :=
  names.foldl (fun uqConstraints name => uqConstraints.modify name fun _ => true) uqConstraints

/-- Constraints none of which is shared. -/
def unshared (names : List Text) : UqConstraintSharing :=
  names.foldl (fun uqConstraints name => (uqConstraints.insert name false).1) ∅

theorem share_append (uqConstraints : UqConstraintSharing) (names names' : List Text) :
    uqConstraints.share (names ++ names') = (uqConstraints.share names).share names' := List.foldl_append

theorem find_share (uqConstraints : UqConstraintSharing) (names : List Text) (name : Text) :
    (uqConstraints.share names).find name =
      (uqConstraints.find name).map fun shared => shared || decide (name ∈ names) := by
  induction names generalizing uqConstraints with
  | nil => simp [share]
  | cons name' names ih =>
      have hcons : uqConstraints.share (name' :: names) =
          share (uqConstraints.modify name' fun _ => true) names := rfl
      rw [hcons, ih, UnorderedMap.modify, UnorderedMap.find_mapValues, Option.map_map]
      congr 1
      funext shared
      by_cases hname : name = name'
      · simp [hname]
      · simp [hname]

theorem find_unshared (names : List Text) (name : Text) :
    (unshared names).find name = if name ∈ names then some false else none := by
  have hfold : ∀ uqConstraints : UqConstraintSharing,
      (names.foldl (fun (uqConstraints : UqConstraintSharing) name => (uqConstraints.insert name false).1)
        uqConstraints).find name = (uqConstraints.find name).or (if name ∈ names then some false else none) := by
    induction names with
    | nil => simp
    | cons name' names ih =>
        intro uqConstraints
        rw [List.foldl_cons, ih, UnorderedMap.find_insert, Option.or_assoc]
        congr 1
        by_cases hname : name = name'
        · simp [hname]
        · simp [hname]
  exact hfold ∅

theorem hasUnsharedConstraint_iff (uqConstraints : UqConstraintSharing) :
    uqConstraints.hasUnsharedConstraint = true ↔ ∃ name, uqConstraints.find name = some false := by
  unfold hasUnsharedConstraint
  rw [List.any_eq_true]
  constructor
  · rintro ⟨⟨name, shared⟩, hmem, hshared⟩
    cases shared with
    | true => cases hshared
    | false => exact ⟨name, UnorderedMap.find_eq_some_iff.mpr hmem⟩
  · rintro ⟨name, hfind⟩
    exact ⟨(name, false), UnorderedMap.find_eq_some_iff.mp hfind, rfl⟩

theorem siblings_cons (tcRec : SqlsvrDdlTcRec) (tcRecs : List SqlsvrDdlTcRec) (stcname : DdlStcname) :
    siblings (tcRec :: tcRecs) stcname = siblings [tcRec] stcname ++ siblings tcRecs stcname := by
  unfold siblings
  rw [← List.map_append, ← List.filter_append, List.singleton_append]

/-- The turn of the loop for a column. -/
theorem visitSibling_eq (q : SqlsvrDdlQueries) (stcname : DdlStcname) (uqConstraints : UqConstraintSharing)
    (tcRec : SqlsvrDdlTcRec) :
    visitSibling q stcname uqConstraints tcRec =
      if ∀ sibling ∈ siblings [tcRec] stcname, (q.findUq sibling).isSome then
        .ok (uqConstraints.share (constraintNames q (siblings [tcRec] stcname)))
      else .error .undefined := by
  unfold visitSibling
  by_cases hskip : tcRec.hidden ∨ tcRec.cname = .ofText stcname.columnName
  · have hsiblings : siblings [tcRec] stcname = [] := by
      unfold siblings
      rw [List.filter_cons_of_neg (by simpa [or_iff_not_imp_left] using hskip)]
      rfl
    rw [if_pos hskip, hsiblings, if_pos (List.forall_mem_nil _)]
    rfl
  · have hsiblings : siblings [tcRec] stcname = [tcRec.stcname stcname.stname] := by
      unfold siblings
      rw [List.filter_cons_of_pos (by simpa using hskip)]
      rfl
    rw [if_neg hskip, hsiblings]
    cases hfind : q.findUq (tcRec.stcname stcname.stname) with
    | none => simp [hfind]
    | some tcUqRecs =>
        have hshare : uqConstraints.share (constraintNames q [tcRec.stcname stcname.stname]) =
            tcUqRecs.foldl (fun (uqConstraints : UqConstraintSharing) r =>
              uqConstraints.modify r.constraintName fun _ => true) uqConstraints := by
          unfold constraintNames share
          rw [List.flatMap_singleton, hfind, Option.getD_some, List.foldl_map]
        rw [hshare, if_pos (by simp [hfind])]

/-- The loop over the columns of a table. -/
theorem foldlM_visitSibling (q : SqlsvrDdlQueries) (stcname : DdlStcname) (tcRecs : List SqlsvrDdlTcRec)
    (uqConstraints : UqConstraintSharing) :
    tcRecs.foldlM (visitSibling q stcname) uqConstraints =
      if ∀ sibling ∈ siblings tcRecs stcname, (q.findUq sibling).isSome then
        .ok (uqConstraints.share (constraintNames q (siblings tcRecs stcname)))
      else .error .undefined := by
  induction tcRecs generalizing uqConstraints with
  | nil => rfl
  | cons tcRec tcRecs ih =>
      have hnames : constraintNames q (siblings [tcRec] stcname ++ siblings tcRecs stcname) =
          constraintNames q (siblings [tcRec] stcname) ++ constraintNames q (siblings tcRecs stcname) :=
        List.flatMap_append
      rw [List.foldlM_cons, visitSibling_eq, siblings_cons tcRec tcRecs, hnames, share_append]
      simp only [List.forall_mem_append]
      by_cases hfirst : ∀ sibling ∈ siblings [tcRec] stcname, (q.findUq sibling).isSome
      · rw [if_pos hfirst]
        show tcRecs.foldlM _ _ = _
        rw [ih]
        by_cases hrest : ∀ sibling ∈ siblings tcRecs stcname, (q.findUq sibling).isSome
        · rw [if_pos hrest, if_pos ⟨hfirst, hrest⟩]
        · rw [if_neg hrest, if_neg fun hall => hrest hall.2]
      · rw [if_neg hfirst, if_neg fun hall => hfirst hall.1]
        rfl

end UqConstraintSharing

namespace SqlsvrDdlQueries

variable {q : SqlsvrDdlQueries} {stcname : DdlStcname}

/-! ### The outcome -/

/-- A column that has its records already gets none. -/
theorem insertNewUq_of_isSome (h : (q.findUq stcname).isSome) (constraintName : Text) :
    q.insertNewUq stcname constraintName = .error .assertion := by
  have hmem : stcname ∈ q.uqMapper.keys := by
    by_contra hnew
    rw [← UnorderedMap.find_eq_none_iff] at hnew
    rw [findUq, hnew] at h
    cases h
  unfold insertNewUq insertUq
  rw [UnorderedMap.insert_of_mem hmem]
  rfl

/-- The records of a column that has had none. -/
theorem insertNewUq_of_none (h : q.findUq stcname = none) (constraintName : Text) :
    ∃ q', q.insertNewUq stcname constraintName = .ok q' ∧ q'.tcMapper = q.tcMapper ∧
      ∀ k, q'.findUq k = if k = stcname then some [⟨false, constraintName⟩] else q.findUq k := by
  have hnew : stcname ∉ q.uqMapper.keys := UnorderedMap.find_eq_none_iff.mp h
  have hinserted : (q.insertUq stcname [⟨false, constraintName⟩]).2 = true := (UnorderedMap.insert_snd _ _ _).mpr hnew
  refine ⟨(q.insertUq stcname [⟨false, constraintName⟩]).1, ?_, rfl, ?_⟩
  · unfold insertNewUq
    rw [if_pos hinserted]
  · intro k
    show (q.uqMapper.insert stcname [⟨false, constraintName⟩]).1.find k = _
    rw [UnorderedMap.find_insert]
    by_cases hkey : k = stcname
    · rw [hkey, if_pos rfl, if_pos rfl]
      exact congrArg (Option.or · _) h
    · rw [if_neg hkey, if_neg hkey, Option.or_none]
      rfl

/-- Looking for shared constraints gets through where all visible siblings have records. -/
theorem make_of_findTc {tcRecs : List SqlsvrDdlTcRec} (h : q.findTc stcname.stname = some tcRecs)
    (uqRecs : List SqlsvrDdlUqRec) :
    UqConstraintSharing.make q uqRecs stcname =
      if ∀ sibling ∈ siblings tcRecs stcname, (q.findUq sibling).isSome then
        .ok ((UqConstraintSharing.unshared (uqRecs.map SqlsvrDdlUqRec.constraintName)).share
          (constraintNames q (siblings tcRecs stcname)))
      else .error .undefined := by
  have hunshared : (uqRecs.foldl (fun (uqConstraints : UqConstraintSharing) r =>
      (uqConstraints.insert r.constraintName false).1) ∅) =
      UqConstraintSharing.unshared (uqRecs.map SqlsvrDdlUqRec.constraintName) := by
    unfold UqConstraintSharing.unshared
    rw [List.foldl_map]
  unfold UqConstraintSharing.make
  dsimp only
  rw [hunshared, h]
  exact UqConstraintSharing.foldlM_visitSibling q stcname tcRecs _

/-- When the search for shared constraints gets through, and whether it finds them all shared. -/
theorem make_eq_ok_iff {uqRecs : List SqlsvrDdlUqRec} {sharing : UqConstraintSharing} :
    UqConstraintSharing.make q uqRecs stcname = .ok sharing ↔
      ∃ tcRecs, q.findTc stcname.stname = some tcRecs ∧
        (∀ sibling ∈ siblings tcRecs stcname, (q.findUq sibling).isSome) ∧
        sharing = (UqConstraintSharing.unshared (uqRecs.map SqlsvrDdlUqRec.constraintName)).share
          (constraintNames q (siblings tcRecs stcname)) := by
  cases htc : q.findTc stcname.stname with
  | none =>
      unfold UqConstraintSharing.make
      rw [htc]
      refine iff_of_false (fun h => by cases h) ?_
      rintro ⟨tcRecs, h, -⟩
      cases h
  | some tcRecs =>
      rw [make_of_findTc htc]
      constructor
      · intro h
        split at h
        · rename_i hall
          cases h
          exact ⟨tcRecs, rfl, hall, rfl⟩
        · cases h
      · rintro ⟨tcRecs', h, hall, rfl⟩
        cases h
        rw [if_pos hall]

/-- What is found of a constraint when siblings have shared theirs. -/
theorem find_share_unshared (names names' : List Text) (name : Text) :
    (((UqConstraintSharing.unshared names).share names').find name = some true ↔
      name ∈ names ∧ name ∈ names') ∧
    (((UqConstraintSharing.unshared names).share names').find name = some false ↔
      name ∈ names ∧ name ∉ names') := by
  rw [UqConstraintSharing.find_share, UqConstraintSharing.find_unshared]
  by_cases hname : name ∈ names
  · simp [hname]
  · simp [hname]

theorem hasUnsharedConstraint_share_iff (names names' : List Text) :
    ((UqConstraintSharing.unshared names).share names').hasUnsharedConstraint = true ↔
      ∃ name ∈ names, name ∉ names' := by
  rw [UqConstraintSharing.hasUnsharedConstraint_iff]
  exact exists_congr fun name => (find_share_unshared names names' name).2

/-! ### Shared constraints -/

/-- Another visible column of the table has a record of a constraint. -/
def IsShared (q : SqlsvrDdlQueries) (stcname : DdlStcname) (tcRecs : List SqlsvrDdlTcRec) (name : Text) : Prop :=
  ∃ sibling ∈ siblings tcRecs stcname, ∃ uqRec ∈ (q.findUq sibling).getD [], uqRec.constraintName = name

/-- The constraints of a column are marked as they are shared or not, and no other constraints are. -/
def ClassifiesConstraints (q : SqlsvrDdlQueries) (stcname : DdlStcname) (tcRecs : List SqlsvrDdlTcRec)
    (uqRecs : List SqlsvrDdlUqRec) : Prop :=
  ∃ sharing, UqConstraintSharing.make q uqRecs stcname = .ok sharing ∧ ∀ name,
    (sharing.find name = some true ↔
      name ∈ uqRecs.map SqlsvrDdlUqRec.constraintName ∧ q.IsShared stcname tcRecs name) ∧
    (sharing.find name = some false ↔
      name ∈ uqRecs.map SqlsvrDdlUqRec.constraintName ∧ ¬ q.IsShared stcname tcRecs name)

theorem mem_constraintNames_siblings_iff {tcRecs : List SqlsvrDdlTcRec} {name : Text} :
    name ∈ constraintNames q (siblings tcRecs stcname) ↔ q.IsShared stcname tcRecs name := by
  unfold constraintNames IsShared
  simp only [List.mem_flatMap, List.mem_map]

/-- The constraints of a column are classified exactly when no other visible column of its table is without
records. -/
theorem classifiesConstraints_iff {tcRecs : List SqlsvrDdlTcRec} (htc : q.findTc stcname.stname = some tcRecs)
    (uqRecs : List SqlsvrDdlUqRec) :
    q.ClassifiesConstraints stcname tcRecs uqRecs ↔
      ∀ sibling ∈ siblings tcRecs stcname, (q.findUq sibling).isSome := by
  unfold ClassifiesConstraints
  rw [make_of_findTc htc]
  by_cases hall : ∀ sibling ∈ siblings tcRecs stcname, (q.findUq sibling).isSome
  · rw [if_pos hall]
    refine iff_of_true ⟨_, rfl, fun name => ?_⟩ hall
    rw [← mem_constraintNames_siblings_iff]
    exact find_share_unshared _ _ name
  · rw [if_neg hall]
    refine iff_of_false ?_ hall
    rintro ⟨sharing, hmake, -⟩
    cases hmake

/-- The columns `a` and `b` of `dbo.t`, `a` an identity column. -/
def columnsAB : List SqlsvrDdlTcRec :=
  [{ cname := .ofText "a".toList, nullable := true, datatype := "int".toList, identity := true },
    { cname := .ofText "b".toList, nullable := true, datatype := "int".toList, identity := false }]

/-- Metadata of these columns. -/
def metadataAB (uqMapper : UnorderedMap DdlStcname (List SqlsvrDdlUqRec)) : SqlsvrDdlQueries where
  ckMapper := ∅
  fkMapper := .empty
  pkMapper := ∅
  uqMapper := uqMapper
  tcMapper := ⟨[(dboT, columnsAB)], by simp⟩

/-- One of the constraints of `a` is shared with `b`. -/
theorem classifiesConstraints_metadataAB :
    ∃ q : SqlsvrDdlQueries, q.findTc dboT = some columnsAB ∧
      q.findUq (.ofStname dboT "a".toList) = some [⟨false, "uq_a".toList⟩, ⟨false, "uq_t".toList⟩] ∧
      q.findUq (.ofStname dboT "b".toList) = some [⟨false, "uq_t".toList⟩] ∧
      q.ClassifiesConstraints (.ofStname dboT "a".toList) columnsAB
        [⟨false, "uq_a".toList⟩, ⟨false, "uq_t".toList⟩] := by
  refine ⟨metadataAB ⟨[(.ofStname dboT "a".toList, [⟨false, "uq_a".toList⟩, ⟨false, "uq_t".toList⟩]),
    (.ofStname dboT "b".toList, [⟨false, "uq_t".toList⟩])], by decide⟩, rfl, rfl, rfl, ?_⟩
  exact (classifiesConstraints_iff rfl _).mpr (by decide)

/-- The constraint of `a` is its own, and `b` has none. -/
theorem make_sibling_without_records :
    ∃ q : SqlsvrDdlQueries, q.findTc dboT = some columnsAB ∧
      q.findUq (.ofStname dboT "a".toList) = some [⟨false, "uq_a".toList⟩] ∧
      q.findUq (.ofStname dboT "b".toList) = none ∧
      UqConstraintSharing.make q [⟨false, "uq_a".toList⟩] (.ofStname dboT "a".toList) = .error .undefined ∧
      ¬ q.ClassifiesConstraints (.ofStname dboT "a".toList) columnsAB [⟨false, "uq_a".toList⟩] := by
  refine ⟨metadataAB ⟨[(.ofStname dboT "a".toList, [⟨false, "uq_a".toList⟩])], by simp⟩, rfl, rfl, rfl, rfl, ?_⟩
  rintro ⟨sharing, hmake, -⟩
  cases hmake

/-! ### What becomes of the column -/

/-- What `uniquify_identity_column` comes to for a column that has records: it reads a missing record, leaves
everything as it is, or throws. -/
theorem uniquifyIdentityColumn_cases {uqRecs : List SqlsvrDdlUqRec} {tcRecs : List SqlsvrDdlTcRec}
    (huq : q.findUq stcname = some uqRecs) (htc : q.findTc stcname.stname = some tcRecs) :
    (¬ (∀ sibling ∈ siblings tcRecs stcname, (q.findUq sibling).isSome) ∧
        q.uniquifyIdentityColumn stcname = .error .undefined) ∨
      (∀ sibling ∈ siblings tcRecs stcname, (q.findUq sibling).isSome) ∧
        (((∀ uqRec ∈ uqRecs, uqRec.constraintName ∈ constraintNames q (siblings tcRecs stcname)) ∧
            q.uniquifyIdentityColumn stcname = .ok q) ∨
          (∃ uqRec ∈ uqRecs, uqRec.constraintName ∉ constraintNames q (siblings tcRecs stcname)) ∧
            ∃ e, e ≠ .undefined ∧ q.uniquifyIdentityColumn stcname = .error e) := by
  have hmake := make_of_findTc htc uqRecs
  have hshare := hasUnsharedConstraint_share_iff (uqRecs.map SqlsvrDdlUqRec.constraintName)
    (constraintNames q (siblings tcRecs stcname))
  unfold uniquifyIdentityColumn
  rw [huq]
  dsimp only
  by_cases hall : ∀ sibling ∈ siblings tcRecs stcname, (q.findUq sibling).isSome
  · refine .inr ⟨hall, ?_⟩
    rw [hmake, if_pos hall]
    dsimp only [bind, Except.bind]
    rw [insertNewUq_of_isSome (by rw [huq]; rfl)]
    by_cases hunshared : ∃ uqRec ∈ uqRecs, uqRec.constraintName ∉ constraintNames q (siblings tcRecs stcname)
    · refine .inr ⟨hunshared, ?_⟩
      obtain ⟨uqRec, huqRec, hname⟩ := hunshared
      rw [hshare.mpr ⟨_, List.mem_map_of_mem huqRec, hname⟩]
      split
      · rename_i hfalse
        cases hfalse
      · split
        · exact ⟨_, fun h => (by cases h), rfl⟩
        · exact ⟨.assertion, fun h => (by cases h), rfl⟩
    · refine .inl ⟨by simpa using hunshared, ?_⟩
      have hnone : ((UqConstraintSharing.unshared (uqRecs.map SqlsvrDdlUqRec.constraintName)).share
          (constraintNames q (siblings tcRecs stcname))).hasUnsharedConstraint = false := by
        rw [← Bool.not_eq_true, hshare]
        rintro ⟨name, hname, hnot⟩
        obtain ⟨uqRec, huqRec, rfl⟩ := List.mem_map.mp hname
        exact hunshared ⟨uqRec, huqRec, hnot⟩
      rw [hnone]
      rfl
  · refine .inl ⟨hall, ?_⟩
    rw [hmake, if_neg hall]
    rfl

/-- A column that has records gets through only where all of its constraints are shared. -/
theorem uniquifyIdentityColumn_of_some {uqRecs : List SqlsvrDdlUqRec} (h : q.findUq stcname = some uqRecs)
    {q' : SqlsvrDdlQueries} :
    q.uniquifyIdentityColumn stcname = .ok q' ↔ q' = q ∧ ∃ tcRecs, q.findTc stcname.stname = some tcRecs ∧
      (∀ sibling ∈ siblings tcRecs stcname, (q.findUq sibling).isSome) ∧
      ∀ uqRec ∈ uqRecs, uqRec.constraintName ∈ constraintNames q (siblings tcRecs stcname) := by
  cases htc : q.findTc stcname.stname with
  | none =>
      unfold uniquifyIdentityColumn UqConstraintSharing.make
      rw [h, htc]
      refine iff_of_false (fun h => by cases h) ?_
      rintro ⟨-, tcRecs, h, -⟩
      cases h
  | some tcRecs =>
      simp only [Option.some.injEq, exists_eq_left']
      obtain ⟨hmissing, hrun⟩ | ⟨hall, ⟨hshared, hrun⟩ | ⟨⟨uqRec, huqRec, hname⟩, e, -, hrun⟩⟩ :=
        uniquifyIdentityColumn_cases h htc
      · rw [hrun]
        exact iff_of_false (fun h => by cases h) fun h => hmissing h.2.1
      · rw [hrun, Except.ok.injEq, and_iff_left ⟨hall, hshared⟩]
        exact eq_comm
      · rw [hrun]
        exact iff_of_false (fun h => by cases h) fun h => hname (h.2.2 uqRec huqRec)

theorem uniquifyIdentityColumn_of_none (h : q.findUq stcname = none) :
    q.uniquifyIdentityColumn stcname = q.insertNewUq stcname ("uq_".toList ++ stcname.columnName) := by
  unfold uniquifyIdentityColumn
  rw [h]

/-! ### A constraint of its own -/

/-- Some visible constraint of the table has exactly this column. -/
def HasOwnConstraint (q : SqlsvrDdlQueries) (stname : DdlStname) (cname : DdlCname) : Prop :=
  ∃ name, ∀ cname', cname' ∈ q.uqCnames stname name ↔ cname' = cname

/-- A column has an unhidden record of a constraint. -/
def InConstraint (q : SqlsvrDdlQueries) (stcname : DdlStcname) (name : Text) : Prop :=
  ∃ uqRec ∈ (q.findUq stcname).getD [], uqRec.hidden = false ∧ uqRec.constraintName = name

theorem mem_uqCnames_iff_inConstraint {stname : DdlStname} {name : Text} {cname : DdlCname} :
    cname ∈ q.uqCnames stname name ↔
      cname ∈ q.visibleCnames stname ∧ q.InConstraint (.ofStname stname cname.name) name := by
  rw [mem_uqCnames_iff]
  unfold visibleUqs InConstraint
  simp only [List.mem_flatMap, List.mem_map, List.mem_filter, Prod.mk.injEq, Bool.not_eq_true']
  constructor
  · rintro ⟨cname', hvisible, uqRec, ⟨huqRec, hunhidden⟩, hname, rfl⟩
    exact ⟨hvisible, uqRec, huqRec, hunhidden, hname⟩
  · rintro ⟨hvisible, uqRec, huqRec, hunhidden, hname⟩
    exact ⟨cname, hvisible, uqRec, ⟨huqRec, hunhidden⟩, hname, rfl⟩

/-- The column is visible and without records, and no other visible column of the table is kept under its full
name or has an unhidden record of the constraint it is going to get. -/
def CanBeUniquified (q : SqlsvrDdlQueries) (stname : DdlStname) (cname : DdlCname) : Prop :=
  let stcname := DdlStcname.ofStname stname cname.name
  q.findUq stcname = none ∧ cname ∈ q.visibleCnames stname ∧
    ∀ cname' ∈ q.visibleCnames stname, cname' ≠ cname →
      DdlStcname.ofStname stname cname'.name ≠ stcname ∧
        ¬ q.InConstraint (.ofStname stname cname'.name) ("uq_".toList ++ stcname.columnName)

/-- The column and all its visible siblings have records, it shares each of its constraints with one of them,
and yet it has one of its own, the records of the siblings being hidden. -/
def PassesForShared (q : SqlsvrDdlQueries) (stname : DdlStname) (cname : DdlCname) : Prop :=
  let stcname := DdlStcname.ofStname stname cname.name
  (q.findUq stcname).isSome ∧ q.HasOwnConstraint stname cname ∧
    ∃ tcRecs, q.findTc stcname.stname = some tcRecs ∧
      (∀ sibling ∈ siblings tcRecs stcname, (q.findUq sibling).isSome) ∧
      ∀ uqRec ∈ (q.findUq stcname).getD [], uqRec.constraintName ∈ constraintNames q (siblings tcRecs stcname)

/-- A column that has had no records has a constraint of its own behind the insert exactly when its siblings
allow for it. -/
theorem hasOwnConstraint_insertNewUq_iff {q' : SqlsvrDdlQueries} {stname : DdlStname} {cname : DdlCname}
    {constraintName : Text} (htc : q'.tcMapper = q.tcMapper)
    (hfind : ∀ k, q'.findUq k =
      if k = .ofStname stname cname.name then some [⟨false, constraintName⟩] else q.findUq k) :
    q'.HasOwnConstraint stname cname ↔ cname ∈ q.visibleCnames stname ∧
      ∀ cname' ∈ q.visibleCnames stname, cname' ≠ cname →
        DdlStcname.ofStname stname cname'.name ≠ .ofStname stname cname.name ∧
          ¬ q.InConstraint (.ofStname stname cname'.name) constraintName := by
  have hvisible : q'.visibleCnames stname = q.visibleCnames stname := by
    unfold visibleCnames findTc
    rw [htc]
  have hself : ∀ name, q'.InConstraint (.ofStname stname cname.name) name ↔ name = constraintName := by
    intro name
    unfold InConstraint
    rw [hfind, if_pos rfl]
    simp only [Option.getD_some, List.mem_singleton, exists_eq_left, true_and]
    exact eq_comm
  have hother : ∀ {k : DdlStcname} (name : Text), k ≠ .ofStname stname cname.name →
      (q'.InConstraint k name ↔ q.InConstraint k name) := by
    intro k name hne
    unfold InConstraint
    rw [hfind, if_neg hne]
  constructor
  · rintro ⟨name, hown⟩
    obtain ⟨hcname, hin⟩ := mem_uqCnames_iff_inConstraint.mp ((hown cname).mpr rfl)
    obtain rfl := (hself name).mp hin
    rw [hvisible] at hcname
    refine ⟨hcname, ?_⟩
    intro cname' hcname' hne
    have hnot : ¬ q'.InConstraint (.ofStname stname cname'.name) name := by
      intro hin'
      rw [← hvisible] at hcname'
      exact hne ((hown cname').mp (mem_uqCnames_iff_inConstraint.mpr ⟨hcname', hin'⟩))
    have hkey : DdlStcname.ofStname stname cname'.name ≠ .ofStname stname cname.name := by
      intro hkey
      rw [hkey] at hnot
      exact hnot hin
    exact ⟨hkey, fun hin' => hnot ((hother name hkey).mpr hin')⟩
  · rintro ⟨hcname, hsiblings⟩
    refine ⟨constraintName, ?_⟩
    intro cname'
    rw [mem_uqCnames_iff_inConstraint, hvisible]
    constructor
    · rintro ⟨hcname', hin⟩
      by_contra hne
      obtain ⟨hkey, hnot⟩ := hsiblings cname' hcname' hne
      exact hnot ((hother constraintName hkey).mp hin)
    · rintro rfl
      exact ⟨hcname, (hself constraintName).mpr rfl⟩

/-- A column is left with a constraint of its own exactly in these two cases. -/
theorem uniquifyIdentityColumn_iff (q : SqlsvrDdlQueries) (stname : DdlStname) (cname : DdlCname) :
    (∃ q', q.uniquifyIdentityColumn (.ofStname stname cname.name) = .ok q' ∧
      q'.HasOwnConstraint stname cname ∧
      ∀ k, k ≠ .ofStname stname cname.name → q'.findUq k = q.findUq k) ↔
    q.CanBeUniquified stname cname ∨ q.PassesForShared stname cname := by
  cases hfind : q.findUq (.ofStname stname cname.name) with
  | none =>
      have hpasses : ¬ q.PassesForShared stname cname := by
        rintro ⟨hsome, -⟩
        rw [hfind] at hsome
        cases hsome
      obtain ⟨q', hrun, htc, hfind'⟩ := insertNewUq_of_none hfind
        ("uq_".toList ++ (DdlStcname.ofStname stname cname.name).columnName)
      rw [uniquifyIdentityColumn_of_none hfind, hrun, or_iff_left hpasses]
      constructor
      · rintro ⟨_, hq', hown, -⟩
        cases hq'
        exact ⟨hfind, (hasOwnConstraint_insertNewUq_iff htc hfind').mp hown⟩
      · rintro ⟨-, hsiblings⟩
        refine ⟨q', rfl, (hasOwnConstraint_insertNewUq_iff htc hfind').mpr hsiblings, ?_⟩
        intro k hne
        rw [hfind', if_neg hne]
  | some uqRecs =>
      have hcan : ¬ q.CanBeUniquified stname cname := by
        rintro ⟨hnone, -⟩
        rw [hfind] at hnone
        cases hnone
      simp only [uniquifyIdentityColumn_of_some hfind]
      rw [or_iff_right hcan]
      unfold PassesForShared
      dsimp only
      rw [hfind]
      constructor
      · rintro ⟨_, ⟨rfl, hshared⟩, hown, -⟩
        exact ⟨rfl, hown, hshared⟩
      · rintro ⟨-, hown, hshared⟩
        exact ⟨q, ⟨rfl, hshared⟩, hown, fun k _ => rfl⟩

/-- The names `uniquify_identity_column` tries for a column. -/
def candidateNames (stcname : DdlStcname) : List Text :=
  ("uq_".toList ++ stcname.columnName) ::
    (List.range 10).map fun i => "uq".toList ++ lexicalCast i ++ stcname.columnName

/-- A column that has a unique constraint of its own already fails the assertion on the insert, though every
candidate name is free. -/
theorem uniquifyIdentityColumn_own_constraint :
    ∃ q : SqlsvrDdlQueries, (∃ tcRec ∈ (q.findTc dboT).getD [], tcRec.cname = .ofText "a".toList) ∧
      q.findUq (.ofStname dboT "a".toList) = some [⟨false, "uq_t".toList⟩] ∧
      (∀ e ∈ q.uqMapper.entries, ∀ uqRec ∈ e.2,
        uqRec.constraintName ∉ candidateNames (.ofStname dboT "a".toList)) ∧
      q.uniquifyIdentityColumn (.ofStname dboT "a".toList) = .error .assertion := by
  refine ⟨{ ckMapper := ∅
            fkMapper := .empty
            pkMapper := ∅
            uqMapper := ⟨[(.ofStname dboT "a".toList, [⟨false, "uq_t".toList⟩])], by decide⟩
            tcMapper := ⟨[(dboT, [{ cname := .ofText "a".toList, nullable := true, datatype := "int".toList
                                    identity := true }])], by decide⟩ }, ?_, rfl, ?_, rfl⟩
  · exact ⟨_, List.mem_cons_self, rfl⟩
  · decide

end SqlsvrDdlQueries

end Middle.SqlsvrDdl
