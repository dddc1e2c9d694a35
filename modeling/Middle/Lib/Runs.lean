import Mathlib

/-! Rows cut where their key changes. The runs have distinct keys exactly when the rows of each key stand one
behind the other. -/

namespace Lib

variable {κ ρ α : Type} [DecidableEq κ] {key : ρ → κ} {record : ρ → α}

/-- The rows cut where their key changes, each piece with its key. -/
def runs (key : ρ → κ) (rows : List ρ) : List (κ × List ρ) :=
  (rows.splitBy fun row row' => key row = key row').filterMap fun run =>
    run.head?.map fun row => (key row, run)

/-- Rows of one key. -/
theorem runs_of_forall {k : κ} {rows : List ρ} (hne : rows ≠ []) (hkey : ∀ row ∈ rows, key row = k) :
    runs key rows = [(k, rows)] := by
  have hchain : rows.IsChain fun row row' => decide (key row = key row') = true := by
    apply List.Pairwise.isChain
    rw [List.pairwise_iff_forall_sublist]
    intro row row' hsub
    have hmem := hsub.subset
    simp [hkey row (hmem (by simp)), hkey row' (hmem (by simp))]
  obtain ⟨row, rest, rfl⟩ := List.exists_cons_of_ne_nil hne
  unfold runs
  rw [List.splitBy_of_isChain hne hchain]
  simp [hkey row List.mem_cons_self]

/-- Rows of one key, and a row of another one behind them. -/
theorem runs_append_cons {k : κ} {rows : List ρ} (hne : rows ≠ []) (hkey : ∀ row ∈ rows, key row = k) {row : ρ}
    (hrow : key row ≠ k) (rest : List ρ) : runs key (rows ++ row :: rest) = (k, rows) :: runs key (row :: rest) := by
  have hrows := runs_of_forall hne hkey
  unfold runs at hrows ⊢
  rw [List.splitBy_append_cons, List.filterMap_append, hrows, List.singleton_append]
  intro last hlast
  rw [hkey last (List.mem_of_getLast? hlast)]
  simpa using Ne.symm hrow

theorem runs_cons (row : ρ) (rows : List ρ) :
    runs key (row :: rows) = (key row, row :: rows.takeWhile (key · = key row)) ::
      runs key (rows.dropWhile (key · = key row)) := by
  have hkey : ∀ row' ∈ row :: rows.takeWhile (key · = key row), key row' = key row := by
    rw [List.forall_mem_cons]
    refine ⟨rfl, ?_⟩
    intro row' hrow'
    simpa using List.mem_takeWhile_imp hrow'
  have hsplit : row :: rows = (row :: rows.takeWhile (key · = key row)) ++ rows.dropWhile (key · = key row) := by
    rw [List.cons_append, List.takeWhile_append_dropWhile]
  cases hrest : rows.dropWhile (key · = key row) with
  | nil =>
      rw [hsplit, hrest, List.append_nil, runs_of_forall (List.cons_ne_nil _ _) hkey]
      rfl
  | cons row' rest =>
      have hrow' : key row' ≠ key row := by
        have hhead := List.head_dropWhile_not (fun r => decide (key r = key row)) (by rw [hrest]; simp)
        simpa [hrest] using hhead
      rw [hsplit, hrest, runs_append_cons (List.cons_ne_nil _ _) hkey hrow']

theorem mem_keys_runs_iff {k : κ} {rows : List ρ} :
    k ∈ (runs key rows).map Prod.fst ↔ ∃ row ∈ rows, key row = k := by
  induction hn : rows.length using Nat.strong_induction_on generalizing rows with
  | _ n ih =>
      cases rows with
      | nil => simp [runs]
      | cons row rows =>
          have hlt : (rows.dropWhile (key · = key row)).length < n := by
            have hle := rows.length_dropWhile_le (key · = key row)
            rw [List.length_cons] at hn
            omega
          rw [runs_cons, List.map_cons, List.mem_cons, ih _ hlt rfl, List.exists_mem_cons_iff]
          constructor
          · rintro (rfl | ⟨row', hrow', hkey⟩)
            · exact .inl rfl
            · exact .inr ⟨row', (List.dropWhile_sublist _).subset hrow', hkey⟩
          · rintro (hkey | ⟨row', hrow', hkey⟩)
            · exact .inl hkey.symm
            · rw [← List.takeWhile_append_dropWhile (p := (key · = key row)) (l := rows), List.mem_append] at hrow'
              rcases hrow' with hrow' | hrow'
              · have hsame := List.mem_takeWhile_imp hrow'
                rw [decide_eq_true_iff] at hsame
                exact .inl (hkey.symm.trans hsame)
              · exact .inr ⟨row', hrow', hkey⟩

/-- The rows of each key stand one behind the other. -/
def Together (key : ρ → κ) (rows : List ρ) : Prop :=
  ∀ ⦃row row' row''⦄, [row, row', row''].Sublist rows → key row = key row'' → key row' = key row

omit [DecidableEq κ] in
theorem Together.of_sublist {rows rows' : List ρ} (h : Together key rows) (hsub : rows'.Sublist rows) :
    Together key rows' := fun _ _ _ h' => h (h'.trans hsub)

/-- Behind the first run of rows that stand together its key is not met again. -/
theorem Together.ne_of_mem_dropWhile {row row' : ρ} {rows : List ρ} (h : Together key (row :: rows))
    (hrow' : row' ∈ rows.dropWhile (key · = key row)) : key row' ≠ key row := by
  intro hsame
  cases hrest : rows.dropWhile (key · = key row) with
  | nil =>
      rw [hrest] at hrow'
      cases hrow'
  | cons first rest =>
      have hfirst : key first ≠ key row := by
        have hhead := List.head_dropWhile_not (fun r => decide (key r = key row)) (by rw [hrest]; simp)
        simpa [hrest] using hhead
      rw [hrest, List.mem_cons] at hrow'
      rcases hrow' with rfl | hrow'
      · exact hfirst hsame
      · have hsub : [row, first, row'].Sublist (row :: rows) := by
          apply List.Sublist.cons_cons
          have hdrop : (first :: rest).Sublist rows := hrest ▸ List.dropWhile_sublist _
          exact (List.Sublist.cons_cons first (List.singleton_sublist.mpr hrow')).trans hdrop
        exact hfirst (h hsub hsame.symm)

/-- The runs of rows that stand together: one for each key, with all its rows. -/
theorem runs_of_together {rows : List ρ} (h : Together key rows) :
    ((runs key rows).map Prod.fst).Nodup ∧ ∀ run ∈ runs key rows, run.2 = rows.filter (key · = run.1) := by
  induction hn : rows.length using Nat.strong_induction_on generalizing rows with
  | _ n ih =>
      cases rows with
      | nil => simp [runs]
      | cons row rows =>
          have hlt : (rows.dropWhile (key · = key row)).length < n := by
            have hle := rows.length_dropWhile_le (key · = key row)
            rw [List.length_cons] at hn
            omega
          have hrest : Together key (rows.dropWhile (key · = key row)) :=
            h.of_sublist ((List.dropWhile_sublist _).trans (List.sublist_cons_self row rows))
          obtain ⟨hnodup, hruns⟩ := ih _ hlt hrest rfl
          have hrows := List.takeWhile_append_dropWhile (p := (key · = key row)) (l := rows)
          have hne : ∀ row' ∈ rows.dropWhile (key · = key row), key row' ≠ key row :=
            fun row' hrow' => h.ne_of_mem_dropWhile hrow'
          have hhead : ∀ row' ∈ rows.takeWhile (key · = key row), key row' = key row := by
            intro row' hrow'
            simpa using List.mem_takeWhile_imp hrow'
          rw [runs_cons, List.map_cons, List.nodup_cons, List.forall_mem_cons, mem_keys_runs_iff]
          refine ⟨⟨?_, hnodup⟩, ?_, ?_⟩
          · rintro ⟨row', hrow', hsame⟩
            exact hne row' hrow' hsame
          · rw [List.filter_cons_of_pos (by simp)]
            conv_rhs => rw [← hrows]
            rw [List.filter_append, List.filter_eq_self.mpr (by simpa using hhead),
              List.filter_eq_nil_iff.mpr (by simpa using hne), List.append_nil]
          · intro run hrun
            obtain ⟨row', hrow', hkey⟩ := mem_keys_runs_iff.mp (List.mem_map_of_mem hrun)
            have hother : key row ≠ run.1 := fun hsame => hne row' hrow' (hkey.trans hsame.symm)
            rw [List.filter_cons_of_neg (by simpa using hother), hruns run hrun]
            conv_rhs => rw [← hrows]
            have hskip : (rows.takeWhile (key · = key row)).filter (key · = run.1) = [] := by
              rw [List.filter_eq_nil_iff]
              intro row'' hrow''
              simpa [hhead row'' hrow''] using hother
            rw [List.filter_append, hskip, List.nil_append]

theorem together_of_nodup {rows : List ρ} (h : ((runs key rows).map Prod.fst).Nodup) : Together key rows := by
  induction hn : rows.length using Nat.strong_induction_on generalizing rows with
  | _ n ih =>
      cases rows with
      | nil =>
          intro row row' row'' hsub
          simp at hsub
      | cons first rows =>
          have hlt : (rows.dropWhile (key · = key first)).length < n := by
            have hle := rows.length_dropWhile_le (key · = key first)
            rw [List.length_cons] at hn
            omega
          rw [runs_cons, List.map_cons, List.nodup_cons, mem_keys_runs_iff] at h
          obtain ⟨hfirst, hnodup⟩ := h
          have hrest := ih _ hlt hnodup rfl
          intro row row' row'' hsub hsame
          have hrun : ∀ r ∈ first :: rows.takeWhile (key · = key first), key r = key first := by
            rw [List.forall_mem_cons]
            refine ⟨rfl, ?_⟩
            intro r hr
            simpa using List.mem_takeWhile_imp hr
          have hsplit : first :: rows =
              (first :: rows.takeWhile (key · = key first)) ++ rows.dropWhile (key · = key first) := by
            rw [List.cons_append, List.takeWhile_append_dropWhile]
          rw [hsplit, List.sublist_append_iff] at hsub
          obtain ⟨l, l', hl, hsub, hsub'⟩ := hsub
          rcases l with _ | ⟨a, _ | ⟨b, _ | ⟨c, l⟩⟩⟩
          · rw [List.nil_append] at hl
            exact hrest (hl ▸ hsub') hsame
          · -- the first row is in the run, the last one is not
            simp only [List.cons_append, List.nil_append, List.cons.injEq] at hl
            obtain ⟨rfl, rfl⟩ := hl
            have hrow := hrun _ (hsub.subset List.mem_cons_self)
            exact absurd ⟨row'', hsub'.subset (by simp), hsame ▸ hrow⟩ hfirst
          · simp only [List.cons_append, List.nil_append, List.cons.injEq] at hl
            obtain ⟨rfl, rfl, rfl⟩ := hl
            have hrow := hrun _ (hsub.subset List.mem_cons_self)
            exact absurd ⟨row'', hsub'.subset (by simp), hsame ▸ hrow⟩ hfirst
          · simp only [List.cons_append, List.cons.injEq] at hl
            obtain ⟨rfl, rfl, -⟩ := hl
            rw [hrun _ (hsub.subset List.mem_cons_self), hrun _ (hsub.subset (by simp))]

/-- The keys of runs are distinct exactly when the rows of each key stand together. -/
theorem nodup_keys_runs_iff {rows : List ρ} : ((runs key rows).map Prod.fst).Nodup ↔ Together key rows :=
  ⟨together_of_nodup, fun h => (runs_of_together h).1⟩

/-! ### Groups -/

/-- The runs with what is kept of their rows. -/
def groups (key : ρ → κ) (record : ρ → α) (rows : List ρ) : List (κ × List α) :=
  (runs key rows).map fun run => (run.1, run.2.map record)

theorem groups_of_forall {k : κ} {rows : List ρ} (hne : rows ≠ []) (hkey : ∀ row ∈ rows, key row = k) :
    groups key record rows = [(k, rows.map record)] := by
  rw [groups, runs_of_forall hne hkey]
  rfl

theorem groups_append_cons {k : κ} {rows : List ρ} (hne : rows ≠ []) (hkey : ∀ row ∈ rows, key row = k) {row : ρ}
    (hrow : key row ≠ k) (rest : List ρ) :
    groups key record (rows ++ row :: rest) = (k, rows.map record) :: groups key record (row :: rest) := by
  rw [groups, runs_append_cons hne hkey hrow]
  rfl

theorem keys_groups (key : ρ → κ) (record : ρ → α) (rows : List ρ) :
    (groups key record rows).map Prod.fst = (runs key rows).map Prod.fst := by
  unfold groups
  rw [List.map_map]
  rfl

theorem mem_keys_groups_iff (record : ρ → α) {k : κ} {rows : List ρ} :
    k ∈ (groups key record rows).map Prod.fst ↔ k ∈ rows.map key := by
  rw [keys_groups, mem_keys_runs_iff, List.mem_map]

theorem find?_groups {sources : List (List ρ)} (h : ∀ source ∈ sources, Together key source) (k : κ) :
    ((sources.map (groups key record)).flatten.find? (·.1 = k)).map Prod.snd =
      (sources.find? fun source => k ∈ source.map key).map fun source =>
        (source.filter (key · = k)).map record := by
  induction sources with
  | nil => rfl
  | cons source sources ih =>
      rw [List.forall_mem_cons] at h
      rw [List.map_cons, List.flatten_cons, List.find?_append, Option.map_or, ih h.2, List.find?_cons]
      by_cases hmem : k ∈ source.map key
      · obtain ⟨e, he, hkey⟩ := List.mem_map.mp ((mem_keys_groups_iff record).mpr hmem)
        have hsome : ((groups key record source).find? (·.1 = k)).isSome := by
          rw [List.find?_isSome]
          exact ⟨e, he, by simpa using hkey⟩
        obtain ⟨e', hfind⟩ := Option.isSome_iff_exists.mp hsome
        have hkey' : e'.1 = k := by simpa using List.find?_some hfind
        obtain ⟨run, hrun, rfl⟩ := List.mem_map.mp (List.mem_of_find?_eq_some hfind)
        have hrows : run.2 = source.filter (key · = run.1) := (runs_of_together h.1).2 run hrun
        rw [hfind, decide_eq_true hmem, ← hkey', hrows]
        rfl
      · have hnone : (groups key record source).find? (·.1 = k) = none := by
          rw [List.find?_eq_none]
          intro e he hkey
          rw [decide_eq_true_iff] at hkey
          exact hmem ((mem_keys_groups_iff record).mp (hkey ▸ List.mem_map_of_mem he))
        rw [hnone, decide_eq_false hmem]
        rfl

/-- Sources of which no two have a key in common: the first rows of a key are all its rows. -/
theorem find?_groups_eq_some_iff {sources : List (List ρ)}
    (hnodup : ((sources.map (groups key record)).flatten.map Prod.fst).Nodup) {k : κ} {recs : List α} :
    ((sources.map (groups key record)).flatten.find? (·.1 = k)).map Prod.snd = some recs ↔
      recs ≠ [] ∧ recs = (sources.flatten.filter (key · = k)).map record := by
  have htogether : ∀ source ∈ sources, Together key source := by
    intro source hsource
    rw [← nodup_keys_runs_iff, ← keys_groups key record]
    rw [List.map_flatten] at hnodup
    exact (List.nodup_flatten.mp hnodup).1 _ (List.mem_map_of_mem (List.mem_map_of_mem hsource))
  rw [find?_groups htogether]
  clear htogether
  induction sources with
  | nil => simp
  | cons source sources ih =>
      rw [List.map_cons, List.flatten_cons, List.map_append, List.nodup_append] at hnodup
      obtain ⟨-, hrest, hdisjoint⟩ := hnodup
      rw [List.find?_cons, List.flatten_cons, List.filter_append]
      by_cases hmem : k ∈ source.map key
      · have hnone : sources.flatten.filter (key · = k) = [] := by
          rw [List.filter_eq_nil_iff]
          intro row hrow hkey
          rw [decide_eq_true_iff] at hkey
          obtain ⟨source', hsource', hrow⟩ := List.mem_flatten.mp hrow
          have hkey' := (mem_keys_groups_iff record).mpr (List.mem_map.mpr ⟨row, hrow, hkey⟩)
          refine hdisjoint k ((mem_keys_groups_iff record).mpr hmem) k ?_ rfl
          rw [List.map_flatten, List.mem_flatten]
          exact ⟨_, List.mem_map_of_mem (List.mem_map_of_mem hsource'), hkey'⟩
        obtain ⟨row, hrow, hkey⟩ := List.mem_map.mp hmem
        have hne : (source.filter (key · = k)).map record ≠ [] := by
          rw [Ne, List.map_eq_nil_iff, List.filter_eq_nil_iff]
          intro h
          exact h row hrow (by simpa using hkey)
        rw [hnone, List.append_nil, decide_eq_true hmem, Option.map_some, Option.some_inj]
        constructor
        · rintro rfl
          exact ⟨hne, rfl⟩
        · rintro ⟨-, rfl⟩
          rfl
      · have hnone : source.filter (key · = k) = [] := by
          rw [List.filter_eq_nil_iff]
          intro row hrow hkey
          exact hmem (List.mem_map.mpr ⟨row, hrow, by simpa using hkey⟩)
        rw [hnone, List.nil_append, decide_eq_false hmem]
        exact ih hrest

end Lib
