import Middle.SqlsvrDdl.IdentityColumns

/-! The search of `uniquify_identity_column` for a name that is not taken. The loop comes to the first numbered
name that is free, but what is behind it throws all the same. -/

namespace Middle.SqlsvrDdl

open Lib Universals NormalDdl

namespace UqConstraintSharing

def numberedName (columnName : Text) (i : Nat) : Text := "uq".toList ++ lexicalCast i ++ columnName

/-- The loop from its turn `i` on, with as many turns left behind it as given last. -/
def searchName (uqConstraints : UqConstraintSharing) (columnName : Text) (i : Nat) : Nat → Text
  | 0 => numberedName columnName i
  | turns + 1 =>
      if uqConstraints.findConstraintName (numberedName columnName i) then
        searchName uqConstraints columnName (i + 1) turns
      else numberedName columnName i

theorem findConstraintName_iff {q : SqlsvrDdlQueries} {uqRecs : List SqlsvrDdlUqRec} {stcname : DdlStcname}
    {sharing : UqConstraintSharing} (h : make q uqRecs stcname = .ok sharing) (name : Text) :
    sharing.findConstraintName name = true ↔ name ∈ uqRecs.map SqlsvrDdlUqRec.constraintName := by
  obtain ⟨tcRecs, -, -, rfl⟩ := SqlsvrDdlQueries.make_eq_ok_iff.mp h
  unfold findConstraintName
  rw [find_share, find_unshared, Option.isSome_map]
  split
  · rename_i hname
    exact iff_of_true rfl hname
  · rename_i hname
    exact iff_of_false Bool.false_ne_true hname

end UqConstraintSharing

namespace SqlsvrDdlQueries

def cantFindFault (identityStcname : DdlStcname) : Fault :=
  .runtimeError ("can't find unused unique constraint name for identity column ".toList ++ identityStcname.name)

/-- `uniquify_identity_column` up to the insert: the name it goes on with, or none where it returns. -/
def newUqConstraintName (q : SqlsvrDdlQueries) (identityStcname : DdlStcname) : Except Fault (Option Text) :=
  let newName := "uq_".toList ++ identityStcname.columnName
  match q.findUq identityStcname with
  | none => .ok (some newName)
  | some uqRecs => do
      let sharing ← UqConstraintSharing.make q uqRecs identityStcname
      if !sharing.hasUnsharedConstraint then return none
      if sharing.findConstraintName newName then
        let _newName := sharing.searchName identityStcname.columnName 0 9
        throw (cantFindFault identityStcname)
      return some newName

/-- The insert, unless the function has returned. -/
def insertNamedUq (q : SqlsvrDdlQueries) (identityStcname : DdlStcname) : Option Text → Except Fault SqlsvrDdlQueries
  | none => .ok q
  | some name => q.insertNewUq identityStcname name

variable {q : SqlsvrDdlQueries} {stcname : DdlStcname}

theorem uniquifyIdentityColumn_eq (q : SqlsvrDdlQueries) (stcname : DdlStcname) :
    q.uniquifyIdentityColumn stcname = q.newUqConstraintName stcname >>= q.insertNamedUq stcname := by
  unfold uniquifyIdentityColumn newUqConstraintName
  cases q.findUq stcname with
  | none => rfl
  | some uqRecs =>
      dsimp only
      cases UqConstraintSharing.make q uqRecs stcname with
      | error e => rfl
      | ok sharing =>
          dsimp only [bind, Except.bind, pure, Except.pure]
          cases sharing.hasUnsharedConstraint with
          | false => rfl
          | true =>
              cases sharing.findConstraintName ("uq_".toList ++ stcname.columnName) <;> rfl

/-- The insert fails in another way than the search. -/
theorem uniquifyIdentityColumn_eq_cantFind_iff :
    q.uniquifyIdentityColumn stcname = .error (cantFindFault stcname) ↔
      q.newUqConstraintName stcname = .error (cantFindFault stcname) := by
  rw [uniquifyIdentityColumn_eq]
  cases q.newUqConstraintName stcname with
  | error e => exact ⟨fun h => by cases h; rfl, fun h => by cases h; rfl⟩
  | ok name =>
      refine iff_of_false ?_ (fun h => by cases h)
      cases name with
      | none => exact fun h => by cases h
      | some name =>
          show q.insertNewUq stcname name ≠ _
          unfold insertNewUq
          dsimp only
          split
          · exact fun h => by cases h
          · exact fun h => by cases h

/-- The outcome of the search that uses what the loop finds: it throws exactly when all names are taken, and
goes on with the first one that is free. -/
def TakesFirstFree (q : SqlsvrDdlQueries) (stcname : DdlStcname) (taken : List Text) : Prop :=
  (q.uniquifyIdentityColumn stcname = .error (cantFindFault stcname) ↔ ∀ name ∈ candidateNames stcname, name ∈ taken) ∧
    ∀ before name behind, candidateNames stcname = before ++ name :: behind → before ⊆ taken → name ∉ taken →
      q.newUqConstraintName stcname = .ok (some name) ∧ q.uniquifyIdentityColumn stcname = q.insertNewUq stcname name

theorem newUqConstraintName_of_own {uqRecs : List SqlsvrDdlUqRec} {tcRecs : List SqlsvrDdlTcRec}
    (huq : q.findUq stcname = some uqRecs) (htc : q.findTc stcname.stname = some tcRecs)
    (hown : ∃ uqRec ∈ uqRecs, uqRec.constraintName ∉ constraintNames q (siblings tcRecs stcname)) :
    q.newUqConstraintName stcname =
      if ∀ sibling ∈ siblings tcRecs stcname, (q.findUq sibling).isSome then
        if "uq_".toList ++ stcname.columnName ∈ uqRecs.map SqlsvrDdlUqRec.constraintName then
          .error (cantFindFault stcname)
        else .ok (some ("uq_".toList ++ stcname.columnName))
      else .error .undefined := by
  unfold newUqConstraintName
  rw [huq]
  dsimp only
  have hmake := make_of_findTc htc uqRecs
  by_cases hsiblings : ∀ sibling ∈ siblings tcRecs stcname, (q.findUq sibling).isSome
  · rw [if_pos hsiblings] at hmake ⊢
    have hunshared : ((UqConstraintSharing.unshared (uqRecs.map SqlsvrDdlUqRec.constraintName)).share
        (constraintNames q (siblings tcRecs stcname))).hasUnsharedConstraint = true := by
      obtain ⟨uqRec, huqRec, hname⟩ := hown
      exact (hasUnsharedConstraint_share_iff _ _).mpr ⟨_, List.mem_map_of_mem huqRec, hname⟩
    have hfound := UqConstraintSharing.findConstraintName_iff hmake ("uq_".toList ++ stcname.columnName)
    rw [hmake]
    dsimp only [bind, Except.bind, pure, Except.pure]
    rw [hunshared]
    by_cases htaken : "uq_".toList ++ stcname.columnName ∈ uqRecs.map SqlsvrDdlUqRec.constraintName
    · rw [hfound.mpr htaken, if_pos htaken]
      rfl
    · rw [eq_false_of_ne_true fun h => htaken (hfound.mp h), if_neg htaken]
      rfl
  · rw [if_neg hsiblings] at hmake ⊢
    rw [hmake]
    rfl

/-- The search comes out right exactly when its first name is free or none is, and no visible sibling is without
records. -/
theorem takesFirstFree_iff {uqRecs : List SqlsvrDdlUqRec} {tcRecs : List SqlsvrDdlTcRec}
    (huq : q.findUq stcname = some uqRecs) (htc : q.findTc stcname.stname = some tcRecs)
    (hown : ∃ uqRec ∈ uqRecs, uqRec.constraintName ∉ constraintNames q (siblings tcRecs stcname)) :
    q.TakesFirstFree stcname (uqRecs.map SqlsvrDdlUqRec.constraintName) ↔
      (∀ sibling ∈ siblings tcRecs stcname, (q.findUq sibling).isSome) ∧
        ("uq_".toList ++ stcname.columnName ∉ uqRecs.map SqlsvrDdlUqRec.constraintName ∨
          ∀ name ∈ candidateNames stcname, name ∈ uqRecs.map SqlsvrDdlUqRec.constraintName) := by
  have hgoesOn : ∀ name, q.newUqConstraintName stcname = .ok (some name) ∧
      q.uniquifyIdentityColumn stcname = q.insertNewUq stcname name ↔
        q.newUqConstraintName stcname = .ok (some name) := by
    refine fun name => and_iff_left_of_imp fun h => ?_
    rw [uniquifyIdentityColumn_eq, h]
    rfl
  unfold TakesFirstFree
  simp only [hgoesOn]
  rw [uniquifyIdentityColumn_eq_cantFind_iff, newUqConstraintName_of_own huq htc hown]
  generalize uqRecs.map SqlsvrDdlUqRec.constraintName = taken
  have hfirst : "uq_".toList ++ stcname.columnName ∈ candidateNames stcname := List.mem_cons_self
  by_cases hsiblings : ∀ sibling ∈ siblings tcRecs stcname, (q.findUq sibling).isSome
  · rw [if_pos hsiblings, and_iff_right hsiblings]
    by_cases htaken : "uq_".toList ++ stcname.columnName ∈ taken
    · rw [if_pos htaken, or_iff_right (not_not.mpr htaken), iff_true_left rfl]
      refine and_iff_left_of_imp fun hall before name behind hnames _ hname => ?_
      exact absurd (hall name (by simp [hnames])) hname
    · rw [if_neg htaken, iff_true_right (.inl htaken)]
      refine ⟨iff_of_false (fun h => by cases h) (fun hall => htaken (hall _ hfirst)), ?_⟩
      intro before name behind hnames hbefore _
      cases before with
      | nil => rw [(List.cons.inj hnames).1]
      | cons first before =>
          rw [(List.cons.inj hnames).1] at htaken
          exact absurd (hbefore List.mem_cons_self) htaken
  · rw [if_neg hsiblings]
    refine iff_of_false ?_ fun h => hsiblings h.1
    rintro ⟨hthrows, hfree⟩
    cases hfind : (candidateNames stcname).find? (· ∉ taken) with
    | none =>
        have hall : ∀ name ∈ candidateNames stcname, name ∈ taken := by simpa using hfind
        cases hthrows.mpr hall
    | some name =>
        obtain ⟨hname, before, behind, hnames, hbefore⟩ := List.find?_eq_some_iff_append.mp hfind
        have hsubset : before ⊆ taken := fun earlier hearlier => by simpa using hbefore earlier hearlier
        cases hfree before name behind hnames hsubset (by simpa using hname)

/-- Metadata of `dbo.t` with the only column `a`, an identity column with one unique constraint. -/
def identityA (constraintName : String) : SqlsvrDdlQueries where
  ckMapper := ∅
  fkMapper := .empty
  pkMapper := ∅
  uqMapper := ⟨[(.ofStname dboT "a".toList, [⟨false, constraintName.toList⟩])], by simp⟩
  tcMapper := ⟨[(dboT, [{ cname := .ofText "a".toList, nullable := true, datatype := "int".toList
                          identity := true }])], by simp⟩

theorem takesFirstFree_iff_identityA :
    (identityA "uq_t").findUq (.ofStname dboT "a".toList) = some [⟨false, "uq_t".toList⟩] ∧
      (identityA "uq_t").TakesFirstFree (.ofStname dboT "a".toList) ["uq_t".toList] := by
  have huq : (identityA "uq_t").findUq (.ofStname dboT "a".toList) = some [⟨false, "uq_t".toList⟩] := rfl
  refine ⟨huq, (takesFirstFree_iff huq rfl ?_).mpr ?_⟩
  · exact ⟨_, List.mem_singleton_self _, by decide⟩
  · exact ⟨by decide, .inl (by decide)⟩

/-- Only the name that is tried first is taken. -/
theorem uniquifyIdentityColumn_throws_with_free_name :
    (∃ tcRecs, (identityA "uq_a").findTc dboT = some tcRecs ∧
        (identityA "uq_a").findUq (.ofStname dboT "a".toList) = some [⟨false, "uq_a".toList⟩] ∧
        "uq_a".toList ∉ constraintNames (identityA "uq_a") (siblings tcRecs (.ofStname dboT "a".toList))) ∧
      (identityA "uq_a").uniquifyIdentityColumn (.ofStname dboT "a".toList) =
        .error (cantFindFault (.ofStname dboT "a".toList)) ∧
      "uq0a".toList ∈ candidateNames (.ofStname dboT "a".toList) ∧
      ¬ (identityA "uq_a").TakesFirstFree (.ofStname dboT "a".toList) ["uq_a".toList] := by
  have hthrows : (identityA "uq_a").uniquifyIdentityColumn (.ofStname dboT "a".toList) =
      .error (cantFindFault (.ofStname dboT "a".toList)) := rfl
  have hfree : "uq0a".toList ∈ candidateNames (.ofStname dboT "a".toList) := by decide
  exact ⟨⟨_, rfl, rfl, by decide⟩, hthrows, hfree, fun h => absurd (h.1.mp hthrows _ hfree) (by decide)⟩

end SqlsvrDdlQueries

end Middle.SqlsvrDdl
