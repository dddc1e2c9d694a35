import Mathlib
import Middle.Lib.UnorderedMap
import Middle.Universals.Text

/-! Normalised names of columns (`ddl_cname`), of tables in a schema (`ddl_stname`) and of columns in such
a table (`ddl_stcname`). A name is one text with dots between its parts; what is no name is empty. -/

namespace Middle.NormalDdl

open Lib Universals

/-- The loop of `normalize_ddl_name`, with `none` where it gives up. -/
def normalizeFrom (prevDot : Bool) : Text → Option Text
  | [] => some []
  | c :: s =>
      if c.isUpper then (normalizeFrom false s).map (c.toLower :: ·)
      else if ¬ c.isAlphanum ∧ c ≠ '_' ∧ (c ≠ '.' ∨ prevDot) then none
      else (normalizeFrom (c = '.') s).map (c :: ·)

/-- `normalize_ddl_name`; in front of an empty text it reads the terminating null. -/
def normalizeDdlName (ddlName : Text) : Text :=
  if ddlName.head?.any Char.isAlpha then (normalizeFrom true ddlName).getD [] else []

/-- What the loop puts out: no capital, no other characters than those of names, and no two dots in a
row. -/
def NormalTail : Bool → Text → Prop
  | _, [] => True
  | prevDot, c :: s =>
      c.isUpper = false ∧ (c.isAlphanum ∨ c = '_' ∨ c = '.' ∧ prevDot = false) ∧ NormalTail (c = '.') s

theorem toLower_of_isUpper {c : Char} (h : c.isUpper = true) :
    c.toLower.isUpper = false ∧ c.toLower.isAlpha = true := by
  refine ⟨Char.isUpper_toLower_eq_false c, ?_⟩
  rw [Char.isAlpha_toLower_eq_isAlpha, Char.isAlpha, h, Bool.true_or]

theorem normalTail_of_normalizeFrom {prevDot : Bool} {s t : Text} (h : normalizeFrom prevDot s = some t) :
    NormalTail prevDot t := by
  induction s generalizing prevDot t with
  | nil =>
      cases h
      exact trivial
  | cons c s ih =>
      unfold normalizeFrom at h
      split at h
      · rename_i hupper
        obtain ⟨t, ht, rfl⟩ := Option.map_eq_some_iff.mp h
        obtain ⟨hlower, halpha⟩ := toLower_of_isUpper hupper
        have hdot : c.toLower ≠ '.' := by
          intro hdot
          rw [hdot] at halpha
          exact absurd halpha (by decide)
        refine ⟨hlower, .inl (by simp [Char.isAlphanum, halpha]), ?_⟩
        rw [decide_eq_false hdot]
        exact ih ht
      · rename_i hupper
        split at h
        · cases h
        · rename_i hchar
          obtain ⟨t, ht, rfl⟩ := Option.map_eq_some_iff.mp h
          refine ⟨by simpa using hupper, ?_, ih ht⟩
          simp only [not_and_or, not_not, not_or] at hchar
          simpa using hchar

theorem normalizeFrom_of_normalTail {prevDot : Bool} {s : Text} (h : NormalTail prevDot s) :
    normalizeFrom prevDot s = some s := by
  induction s generalizing prevDot with
  | nil => rfl
  | cons c s ih =>
      obtain ⟨hupper, hchar, htail⟩ := h
      have hskip : ¬ (¬ c.isAlphanum ∧ c ≠ '_' ∧ (c ≠ '.' ∨ prevDot)) := by
        simp only [not_and_or, not_not, not_or]
        simpa using hchar
      unfold normalizeFrom
      rw [if_neg (by simp [hupper]), if_neg hskip, ih htail]
      rfl

theorem normalizeDdlName_idem (s : Text) : normalizeDdlName (normalizeDdlName s) = normalizeDdlName s := by
  cases hloop : normalizeFrom true s with
  | none => simp [normalizeDdlName, hloop]
  | some t =>
      have htail := normalizeFrom_of_normalTail (normalTail_of_normalizeFrom hloop)
      unfold normalizeDdlName
      rw [hloop, Option.getD_some]
      by_cases hs : s.head?.any Char.isAlpha
      · rw [if_pos hs, htail, Option.getD_some]
        split
        · rfl
        · -- the loop keeps the first character a letter
          rename_i ht
          cases s with
          | nil => exact absurd hs (by simp)
          | cons c s =>
              simp only [List.head?_cons, Option.any_some] at hs
              unfold normalizeFrom at hloop
              split at hloop
              · rename_i hupper
                obtain ⟨t, -, rfl⟩ := Option.map_eq_some_iff.mp hloop
                exact absurd (toLower_of_isUpper hupper).2 (by simpa using ht)
              · split at hloop
                · cases hloop
                · obtain ⟨t, -, rfl⟩ := Option.map_eq_some_iff.mp hloop
                  exact absurd hs (by simpa using ht)
      · rw [if_neg hs]
        rfl

/-- `ddl_cname`. -/
@[ext] structure DdlCname where
  name : Text
  normal : normalizeDdlName name = name
  deriving DecidableEq

/-- `ddl_stname`. -/
@[ext] structure DdlStname where
  name : Text
  normal : normalizeDdlName name = name
  deriving DecidableEq

/-- `ddl_stcname`. -/
@[ext] structure DdlStcname where
  name : Text
  normal : normalizeDdlName name = name
  deriving DecidableEq

/-- `name.find('.')`. -/
def findDot (name : Text) : Option Nat := name.findIdx? (· = '.')

/-- `name.rfind('.')`. -/
def rfindDot (name : Text) : Option Nat := (findDot name.reverse).map (name.length - 1 - ·)

/-- `name.substr(pos, count)` for a position that is not past the end, with `none` for `npos`. -/
def substr (name : Text) (pos : Nat) (count : Option Nat) : Text :=
  match count with
  | none => name.drop pos
  | some count => (name.drop pos).take count

namespace DdlCname

def empty : DdlCname := ⟨[], rfl⟩

def ofText (columnName : Text) : DdlCname := ⟨normalizeDdlName columnName, normalizeDdlName_idem _⟩

end DdlCname

namespace DdlStname

def empty : DdlStname := ⟨[], rfl⟩

def make (schemaName tableName : Text) : DdlStname :=
  ⟨normalizeDdlName (schemaName ++ '.' :: tableName), normalizeDdlName_idem _⟩

def schemaName (stname : DdlStname) : Text := substr stname.name 0 (findDot stname.name)

/-- Without a dot the text behind the end of `npos + 1`, which is 0, is the whole name. -/
def tableName (stname : DdlStname) : Text :=
  match findDot stname.name with
  | none => stname.name
  | some dotpos => substr stname.name (dotpos + 1) none

/-- `parse`. -/
def parse (name defaultSchemaName : Text) : DdlStname :=
  match findDot name with
  | none => make defaultSchemaName name
  | some dotpos => make (substr name 0 (some dotpos)) (substr name (dotpos + 1) none)

end DdlStname

namespace DdlStcname

def empty : DdlStcname := ⟨[], rfl⟩

def make (schemaName tableName columnName : Text) : DdlStcname :=
  ⟨normalizeDdlName (schemaName ++ '.' :: tableName ++ '.' :: columnName), normalizeDdlName_idem _⟩

def ofStname (stname : DdlStname) (columnName : Text) : DdlStcname :=
  make stname.schemaName stname.tableName columnName

def schemaName (stcname : DdlStcname) : Text := substr stcname.name 0 (findDot stcname.name)

/-- With one dot only the count is -1, which is `npos`. -/
def tableName (stcname : DdlStcname) : Text :=
  match findDot stcname.name, rfindDot stcname.name with
  | some dot1pos, some dot2pos =>
      substr stcname.name (dot1pos + 1) (if dot1pos = dot2pos then none else some (dot2pos - dot1pos - 1))
  | _, _ => stcname.name

def columnName (stcname : DdlStcname) : Text :=
  match rfindDot stcname.name with
  | none => stcname.name
  | some dot2pos => substr stcname.name (dot2pos + 1) none

def stname (stcname : DdlStcname) : DdlStname := .make stcname.schemaName stcname.tableName

def cname (stcname : DdlStcname) : DdlCname := .ofText stcname.columnName

/-- `parse`. -/
def parse (name defaultSchemaName : Text) : DdlStcname :=
  match findDot name with
  | none => empty
  | some dot1pos =>
      match findDot (name.drop (dot1pos + 1)) with
      | none => make defaultSchemaName (substr name 0 (some dot1pos)) (substr name (dot1pos + 1) none)
      | some count =>
          make (substr name 0 (some dot1pos)) (substr name (dot1pos + 1) (some count))
            (substr name (dot1pos + 1 + count + 1) none)

end DdlStcname

/-- `ddl_usedcols`. -/
abbrev DdlUsedcols := Finset DdlCname

/-- `ddl_assumed_identities`. -/
abbrev DdlAssumedIdentities := Finset DdlStcname

/-- `ddl_stname_usedcols`. -/
abbrev DdlStnameUsedcols := UnorderedMap DdlStname DdlUsedcols

/-- `used_column`. -/
def DdlStnameUsedcols.usedColumn (m : DdlStnameUsedcols) (stcname : DdlStcname) : Bool :=
  match m.find stcname.stname with
  | none => false
  | some usedcols => stcname.cname ∈ usedcols

example : (DdlStcname.make "Dbo".toList "Order_Line".toList "ID".toList).stname =
    DdlStname.make "dbo".toList "order_line".toList := by decide

end Middle.NormalDdl
