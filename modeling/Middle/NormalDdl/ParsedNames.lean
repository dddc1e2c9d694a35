import Middle.NormalDdl.NameParts

/-! Where the three types of names agree, and which texts they are read from. A column whose name begins with an
underscore or a digit has a full name and no name of its own; and a text is read with a dot at its end, or with
dots too many, as the first of them are all that parsing looks for. -/

namespace Middle.NormalDdl

open Universals

/-! ### Columns -/

/-- A column with a full name is the same under the names of its table and of its own. -/
structure DdlStcname.Agrees (s t c : Text) : Prop where
  schemaName : (DdlStcname.make s t c).schemaName = toLower s
  tableName : (DdlStcname.make s t c).tableName = toLower t
  columnName : (DdlStcname.make s t c).columnName = toLower c
  stname : (DdlStcname.make s t c).stname = DdlStname.make s t
  cname : (DdlStcname.make s t c).cname = DdlCname.ofText c
  cname_ne_empty : (DdlStcname.make s t c).cname ≠ .empty

def BeginsWithLetter (s : Text) : Prop := s.head?.any Char.isAlpha = true

section Columns

variable {s t c c' : Text}

theorem name_ofText_of_beginsWithLetter (hchars : ∀ a ∈ c, isPartChar a = true) (h : BeginsWithLetter c) :
    (DdlCname.ofText c).name = toLower c := by
  have hdotless : '.' ∉ c := fun hdot => ne_dot_of_isPartChar (hchars _ hdot) rfl
  show normalizeDdlName c = _
  rw [normalizeDdlName_eq, h, (normalizable_of_dotless hdotless true).mpr hchars]
  rfl

theorem ofText_of_not_beginsWithLetter (h : ¬ BeginsWithLetter c) : DdlCname.ofText c = .empty := by
  apply DdlCname.ext
  show normalizeDdlName c = []
  rw [normalizeDdlName_eq, eq_false_of_ne_true h]
  rfl

theorem ofText_ne_empty_iff (hchars : ∀ a ∈ c, isPartChar a = true) :
    DdlCname.ofText c ≠ .empty ↔ BeginsWithLetter c := by
  constructor
  · intro hne
    by_contra hno
    exact hne (ofText_of_not_beginsWithLetter hno)
  · intro h hempty
    have hname := congrArg DdlCname.name hempty
    rw [name_ofText_of_beginsWithLetter hchars h] at hname
    cases c with
    | nil => cases h
    | cons a c => cases hname

theorem agrees_iff (hs : '.' ∉ s) (ht : '.' ∉ t) (hc : '.' ∉ c) (h : (DdlStcname.make s t c).name ≠ []) :
    DdlStcname.Agrees s t c ↔ BeginsWithLetter c := by
  obtain ⟨hname, -, -, hnormalizable⟩ := DdlStcname.name_make hs ht h
  obtain ⟨hschema, htable, hcolumn⟩ := DdlStcname.accessors_of_name hs hc hname
  have hchars := (normalizable_of_dotless hc true).mp hnormalizable
  have hstname : (DdlStcname.make s t c).stname = DdlStname.make s t := by
    apply DdlStname.ext
    show normalizeDdlName ((DdlStcname.make s t c).schemaName ++ '.' :: (DdlStcname.make s t c).tableName) = _
    have hjoin : toLower s ++ '.' :: toLower t = toLower (s ++ '.' :: t) := by
      rw [toLower_append]
      rfl
    rw [hschema, htable, hjoin, normalizeDdlName_toLower]
    rfl
  have hcname : (DdlStcname.make s t c).cname = DdlCname.ofText c := by
    apply DdlCname.ext
    show normalizeDdlName (DdlStcname.make s t c).columnName = _
    rw [hcolumn, normalizeDdlName_toLower]
    rfl
  rw [← ofText_ne_empty_iff hchars, ← hcname]
  exact ⟨fun hagrees => hagrees.cname_ne_empty, fun hne => ⟨hschema, htable, hcolumn, hstname, hcname, hne⟩⟩

/-- Two columns of a table are told apart by their own names where one of them begins with a letter. -/
theorem ofText_ne_iff (hs : '.' ∉ s) (ht : '.' ∉ t) (hc : '.' ∉ c) (hc' : '.' ∉ c')
    (h : (DdlStcname.make s t c).name ≠ []) (h' : (DdlStcname.make s t c').name ≠ [])
    (hne : DdlStcname.make s t c ≠ DdlStcname.make s t c') :
    DdlCname.ofText c ≠ DdlCname.ofText c' ↔ BeginsWithLetter c ∨ BeginsWithLetter c' := by
  obtain ⟨hname, -, -, hnormalizable⟩ := DdlStcname.name_make hs ht h
  obtain ⟨hname', -, -, hnormalizable'⟩ := DdlStcname.name_make hs ht h'
  have hchars := (normalizable_of_dotless hc true).mp hnormalizable
  have hchars' := (normalizable_of_dotless hc' true).mp hnormalizable'
  constructor
  · intro hcnames
    by_contra hno
    rw [not_or] at hno
    exact hcnames ((ofText_of_not_beginsWithLetter hno.1).trans (ofText_of_not_beginsWithLetter hno.2).symm)
  · intro hor heq
    have hiff : BeginsWithLetter c ↔ BeginsWithLetter c' := by
      rw [← ofText_ne_empty_iff hchars, ← ofText_ne_empty_iff hchars', heq]
    have hletter : BeginsWithLetter c := hor.elim id hiff.mpr
    have hlower := congrArg DdlCname.name heq
    rw [name_ofText_of_beginsWithLetter hchars hletter,
      name_ofText_of_beginsWithLetter hchars' (hiff.mp hletter)] at hlower
    exact hne (DdlStcname.ext (by rw [hname, hname', hlower]))

/-- The types agree on a column exactly when its own name begins with a letter, and tell two columns of a table
apart exactly when one of their names does. -/
theorem columnNames_agree_iff (hs : '.' ∉ s) (ht : '.' ∉ t) (hc : '.' ∉ c) (h : (DdlStcname.make s t c).name ≠ []) :
    (DdlStcname.Agrees s t c ↔ BeginsWithLetter c) ∧
      ∀ c', '.' ∉ c' → (DdlStcname.make s t c').name ≠ [] → DdlStcname.make s t c ≠ DdlStcname.make s t c' →
        (DdlCname.ofText c ≠ DdlCname.ofText c' ↔ BeginsWithLetter c ∨ BeginsWithLetter c') :=
  ⟨agrees_iff hs ht hc h, fun _ hc' h' hne => ofText_ne_iff hs ht hc hc' h h' hne⟩

theorem columnNames_agree_orderId :
    (DdlStcname.make "dbo".toList "Order".toList "Id".toList).name ≠ [] ∧
      DdlStcname.Agrees "dbo".toList "Order".toList "Id".toList := by
  have h : (DdlStcname.make "dbo".toList "Order".toList "Id".toList).name ≠ [] := by decide
  exact ⟨h, (columnNames_agree_iff (by decide) (by decide) (by decide) h).1.mpr rfl⟩

/-- Two columns that begin with an underscore have full names, and no names of their own. -/
theorem columnNames_underscore :
    (DdlStcname.make "dbo".toList "t".toList "_id".toList).name = "dbo.t._id".toList ∧
      (DdlStcname.make "dbo".toList "t".toList "_id".toList).cname = .empty ∧
      ¬ DdlStcname.Agrees "dbo".toList "t".toList "_id".toList ∧
      DdlStcname.make "dbo".toList "t".toList "_id".toList ≠ DdlStcname.make "dbo".toList "t".toList "_no".toList ∧
      DdlCname.ofText "_id".toList = DdlCname.ofText "_no".toList := by
  have hempty : (DdlStcname.make "dbo".toList "t".toList "_id".toList).cname = .empty := by decide
  exact ⟨by decide, hempty, fun h => h.cname_ne_empty hempty, by decide, by decide⟩

end Columns

/-! ### Parsing -/

/-- A table that has been parsed from the parts of a text, the first of which may be left out. -/
def DdlStname.ParsedFrom (stname : DdlStname) (x defaultSchema : Text) : Prop :=
  (IsPart x ∧ IsPart defaultSchema ∧ stname.schemaName = toLower defaultSchema ∧ stname.tableName = toLower x) ∨
    ∃ s t, x = s ++ '.' :: t ∧ IsPart s ∧ IsPart t ∧ stname.schemaName = toLower s ∧ stname.tableName = toLower t

/-- A column that has been parsed from the parts of a text, the first of which may be left out. -/
def DdlStcname.ParsedFrom (stcname : DdlStcname) (x defaultSchema : Text) : Prop :=
  (∃ t c, x = t ++ '.' :: c ∧ IsPart t ∧ IsPart c ∧ IsPart defaultSchema ∧
      stcname.schemaName = toLower defaultSchema ∧ stcname.tableName = toLower t ∧ stcname.columnName = toLower c) ∨
    ∃ s t c, x = s ++ '.' :: t ++ '.' :: c ∧ IsPart s ∧ IsPart t ∧ IsPart c ∧
      stcname.schemaName = toLower s ∧ stcname.tableName = toLower t ∧ stcname.columnName = toLower c

section Parts

variable {s t x d : Text}

theorem IsPart.dotless (h : IsPart s) : '.' ∉ s := fun hdot => ne_dot_of_isPartChar (h.2 _ hdot) rfl

theorem IsPart.count_dot (h : IsPart s) : s.count '.' = 0 := List.count_eq_zero.mpr h.dotless

theorem isPart_iff (h : '.' ∉ s) (hnormalizable : normalizable true s = true) : IsPart s ↔ s ≠ [] :=
  and_iff_left ((normalizable_of_dotless h true).mp hnormalizable)

theorem count_append_dot (s t : Text) : (s ++ '.' :: t).count '.' = s.count '.' + t.count '.' + 1 := by
  rw [List.count_append, List.count_cons_self, Nat.add_assoc]

/-- The last part is missing where the text ends in a dot. -/
theorem getLast?_append_dot (h : '.' ∉ t) : (s ++ '.' :: t).getLast? ≠ some '.' ↔ t ≠ [] := by
  rw [List.getLast?_append, List.getLast?_cons, Option.some_or]
  cases hlast : t.getLast? with
  | none => simp [List.getLast?_eq_none_iff.mp hlast]
  | some c =>
      have hc : c ∈ t := List.mem_of_getLast? hlast
      refine iff_of_true (fun hdot => ?_) (List.ne_nil_of_mem hc)
      cases hdot
      exact h hc

theorem getLast?_of_dotless (h : '.' ∉ s) : s.getLast? ≠ some '.' := fun hlast => h (List.mem_of_getLast? hlast)

/-- The parts of a text and its default schema decide how many dots there are and where. -/
theorem DdlStname.ParsedFrom.dots {stname : DdlStname} (h : stname.ParsedFrom x d) :
    x ≠ [] ∧ x.count '.' ≤ 1 ∧ x.getLast? ≠ some '.' ∧ ('.' ∉ x → '.' ∉ d) := by
  obtain ⟨hx, hd, -⟩ | ⟨s, t, rfl, hs, ht, -⟩ := h
  · exact ⟨hx.1, by rw [hx.count_dot]; exact Nat.zero_le 1, getLast?_of_dotless hx.dotless, fun _ => hd.dotless⟩
  · refine ⟨by simp, ?_, (getLast?_append_dot ht.dotless).mpr ht.1, fun hx => absurd (by simp) hx⟩
    rw [count_append_dot, hs.count_dot, ht.count_dot]

theorem DdlStcname.ParsedFrom.dots {stcname : DdlStcname} (h : stcname.ParsedFrom x d) :
    x.count '.' ≤ 2 ∧ x.getLast? ≠ some '.' ∧ (x.count '.' = 1 → '.' ∉ d) := by
  obtain ⟨t, c, rfl, ht, hc, hd, -⟩ | ⟨s, t, c, rfl, hs, ht, hc, -⟩ := h
  · refine ⟨?_, (getLast?_append_dot hc.dotless).mpr hc.1, fun _ => hd.dotless⟩
    rw [count_append_dot, ht.count_dot, hc.count_dot]
    decide
  · have hcount : (s ++ '.' :: t ++ '.' :: c).count '.' = 2 := by
      rw [count_append_dot, count_append_dot, hs.count_dot, ht.count_dot, hc.count_dot]
    refine ⟨hcount.le, (getLast?_append_dot hc.dotless).mpr hc.1, fun hone => ?_⟩
    rw [hcount] at hone
    cases hone

end Parts

section Parse

variable {x d : Text}

/-- When a table is parsed from the parts of the text. -/
theorem parse_stname_iff (h : (DdlStname.parse x d).name ≠ []) :
    (DdlStname.parse x d).ParsedFrom x d ↔
      x ≠ [] ∧ x.count '.' ≤ 1 ∧ x.getLast? ≠ some '.' ∧ ('.' ∉ x → '.' ∉ d) := by
  refine ⟨DdlStname.ParsedFrom.dots, ?_⟩
  rintro ⟨hne, hcount, hlast, hdefault⟩
  unfold DdlStname.parse at h ⊢
  by_cases hx : '.' ∈ x
  · obtain ⟨s, t, rfl, hs⟩ := exists_first_dot hx
    have hschema : substr (s ++ '.' :: t) 0 (some s.length) = s := List.take_left
    have htable : substr (s ++ '.' :: t) (s.length + 1) none = t := drop_append_dot s t
    rw [findDot_append hs] at h ⊢
    dsimp only at h ⊢
    rw [hschema, htable] at h ⊢
    rw [count_append_dot] at hcount
    have ht : '.' ∉ t := List.count_eq_zero.mp (by omega)
    obtain ⟨hname, hpart, hnormalizable⟩ := DdlStname.name_make hs h
    have hpart' := (isPart_iff ht hnormalizable).mpr ((getLast?_append_dot ht).mp hlast)
    exact .inr ⟨s, t, rfl, hpart, hpart', DdlStname.accessors_of_name hs hname⟩
  · have hd := hdefault hx
    rw [findDot_of_dotless hx] at h ⊢
    obtain ⟨hname, hpart, hnormalizable⟩ := DdlStname.name_make hd h
    exact .inl ⟨(isPart_iff hx hnormalizable).mpr hne, hpart, DdlStname.accessors_of_name hd hname⟩

/-- When a column is parsed from the parts of the text. -/
theorem parse_stcname_iff (h : (DdlStcname.parse x d).name ≠ []) :
    (DdlStcname.parse x d).ParsedFrom x d ↔
      x.count '.' ≤ 2 ∧ x.getLast? ≠ some '.' ∧ (x.count '.' = 1 → '.' ∉ d) := by
  refine ⟨DdlStcname.ParsedFrom.dots, ?_⟩
  rintro ⟨hcount, hlast, hdefault⟩
  unfold DdlStcname.parse at h ⊢
  by_cases hx : '.' ∈ x
  · obtain ⟨s, r, rfl, hs⟩ := exists_first_dot hx
    have hfirst : substr (s ++ '.' :: r) 0 (some s.length) = s := List.take_left
    rw [count_append_dot, List.count_eq_zero.mpr hs] at hcount hdefault
    rw [findDot_append hs] at h ⊢
    dsimp only at h ⊢
    rw [hfirst, drop_append_dot] at h ⊢
    by_cases hr : '.' ∈ r
    · obtain ⟨t, c, rfl, ht⟩ := exists_first_dot hr
      have hassoc : s ++ '.' :: (t ++ '.' :: c) = s ++ '.' :: t ++ '.' :: c := by
        rw [List.append_assoc, List.cons_append]
      have hsecond : substr (s ++ '.' :: (t ++ '.' :: c)) (s.length + 1) (some t.length) = t := by
        unfold substr
        rw [drop_append_dot]
        exact List.take_left
      have hthird : substr (s ++ '.' :: (t ++ '.' :: c)) (s.length + 1 + t.length + 1) none = c := by
        unfold substr
        rw [Nat.add_assoc, ← List.drop_drop, drop_append_dot, drop_append_dot]
      rw [findDot_append ht] at h ⊢
      dsimp only at h ⊢
      rw [hsecond, hthird] at h ⊢
      rw [count_append_dot] at hcount
      have hc : '.' ∉ c := List.count_eq_zero.mp (by omega)
      rw [hassoc, getLast?_append_dot hc] at hlast
      obtain ⟨hname, hpart, hpart', hnormalizable⟩ := DdlStcname.name_make hs ht h
      have hpart'' := (isPart_iff hc hnormalizable).mpr hlast
      exact .inr ⟨s, t, c, hassoc, hpart, hpart', hpart'', DdlStcname.accessors_of_name hs hc hname⟩
    · have hd := hdefault (by rw [List.count_eq_zero.mpr hr])
      have hrest : substr (s ++ '.' :: r) (s.length + 1) none = r := drop_append_dot s r
      rw [findDot_of_dotless hr] at h ⊢
      dsimp only at h ⊢
      rw [hrest] at h ⊢
      obtain ⟨hname, hpart, hpart', hnormalizable⟩ := DdlStcname.name_make hd hs h
      have hpart'' := (isPart_iff hr hnormalizable).mpr ((getLast?_append_dot hr).mp hlast)
      exact .inl ⟨s, r, rfl, hpart', hpart'', hpart, DdlStcname.accessors_of_name hd hr hname⟩
  · rw [findDot_of_dotless hx] at h
    exact absurd rfl h

/-- What is parsed to a name is made of its parts exactly where it has no dots too many and none at its end,
there is something in front of a dot or without one, and no dot in a default schema that is put in. -/
theorem parse_parsedFrom_iff (x d : Text) :
    ((DdlStname.parse x d).name ≠ [] → ((DdlStname.parse x d).ParsedFrom x d ↔
        x ≠ [] ∧ x.count '.' ≤ 1 ∧ x.getLast? ≠ some '.' ∧ ('.' ∉ x → '.' ∉ d))) ∧
      ((DdlStcname.parse x d).name ≠ [] → ((DdlStcname.parse x d).ParsedFrom x d ↔
        x.count '.' ≤ 2 ∧ x.getLast? ≠ some '.' ∧ (x.count '.' = 1 → '.' ∉ d))) :=
  ⟨parse_stname_iff, parse_stcname_iff⟩

theorem parse_parsedFrom_orders :
    (DdlStname.parse "Orders".toList "dbo".toList).ParsedFrom "Orders".toList "dbo".toList ∧
      (DdlStcname.parse "Sales.Orders.Id".toList "dbo".toList).ParsedFrom "Sales.Orders.Id".toList "dbo".toList :=
  ⟨((parse_parsedFrom_iff _ _).1 (by decide)).mpr (by decide),
    ((parse_parsedFrom_iff _ _).2 (by decide)).mpr (by decide)⟩

/-- Names are read from a text of three parts and from one of four, and from one with a dot at its end. -/
theorem parse_more_parts :
    (DdlStname.parse "a.b.c".toList "dbo".toList).name = "a.b.c".toList ∧
      ¬ (DdlStname.parse "a.b.c".toList "dbo".toList).ParsedFrom "a.b.c".toList "dbo".toList ∧
      (DdlStname.parse "a.".toList "dbo".toList).name = "a.".toList ∧
      ¬ (DdlStname.parse "a.".toList "dbo".toList).ParsedFrom "a.".toList "dbo".toList ∧
      (DdlStcname.parse "a.b.c.d".toList "dbo".toList).name = "a.b.c.d".toList ∧
      ¬ (DdlStcname.parse "a.b.c.d".toList "dbo".toList).ParsedFrom "a.b.c.d".toList "dbo".toList := by
  refine ⟨by decide, ?_, by decide, ?_, by decide, ?_⟩
  · exact fun h => absurd h.dots (by decide)
  · exact fun h => absurd h.dots (by decide)
  · exact fun h => absurd h.dots (by decide)

end Parse

end Middle.NormalDdl
