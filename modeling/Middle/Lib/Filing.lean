import Middle.Lib.Checked
import Middle.Lib.UnorderedMap

/-! Values filed in a map in which the first one under a key stays, and what comes of those behind it. -/

namespace Lib

/-- A value to be filed, with what comes of it when its key is taken: a note, or an exception. -/
structure Entry (κ ν ε φ : Type) where
  key : κ
  value : ν
  taken : Except φ ε

/-- A map being filled, and the notes so far. -/
structure Filing (κ ν ε : Type) where
  map : UnorderedMap κ ν := ∅
  notes : List ε := []

namespace Filing

variable {κ ν ε φ : Type} [DecidableEq κ]

def file (st : Filing κ ν ε) (e : Entry κ ν ε φ) : Except φ (Filing κ ν ε) :=
  if e.key ∈ st.map.keys then e.taken.map fun note => { st with notes := st.notes ++ [note] }
  else .ok { st with map := (st.map.insert e.key e.value).1 }

/-- The entries whose keys are among these or are those of entries in front of them. -/
def clashes : List κ → List (Entry κ ν ε φ) → List (Entry κ ν ε φ)
  | _, [] => []
  | keys, e :: es => if e.key ∈ keys then e :: clashes keys es else clashes (keys ++ [e.key]) es

def insertAll (m : UnorderedMap κ ν) (es : List (Entry κ ν ε φ)) : UnorderedMap κ ν :=
  es.foldl (fun m e => (m.insert e.key e.value).1) m

theorem keys_insert_of_notMem {m : UnorderedMap κ ν} {k : κ} (h : k ∉ m.keys) (v : ν) :
    (m.insert k v).1.keys = m.keys ++ [k] := by
  unfold UnorderedMap.keys
  rw [UnorderedMap.insert_entries_of_notMem h, List.map_append, List.map_singleton]

/-- Filing inserts the first entry of each key, and does with the others what they say. -/
theorem foldlM_file (es : List (Entry κ ν ε φ)) (st : Filing κ ν ε) :
    es.foldlM file st = ((clashes st.map.keys es).mapM Entry.taken).map fun notes =>
      ⟨insertAll st.map es, st.notes ++ notes⟩ := by
  induction es generalizing st with
  | nil =>
      show Except.ok st = .ok ⟨st.map, st.notes ++ []⟩
      rw [List.append_nil]
  | cons e es ih =>
      rw [List.foldlM_cons, file, insertAll, List.foldl_cons, clashes]
      by_cases hkey : e.key ∈ st.map.keys
      · rw [if_pos hkey, if_pos hkey, List.mapM_cons, UnorderedMap.insert_of_mem hkey]
        cases e.taken with
        | error e => rfl
        | ok note =>
            dsimp only [Except.map, bind, Except.bind]
            rw [ih]
            cases (clashes st.map.keys es).mapM Entry.taken with
            | error e => rfl
            | ok notes =>
                dsimp only [Except.map, pure, Except.pure]
                rw [List.append_assoc]
                rfl
      · rw [if_neg hkey, if_neg hkey]
        dsimp only [bind, Except.bind]
        rw [ih, keys_insert_of_notMem hkey]
        rfl

theorem find_insertAll (m : UnorderedMap κ ν) (es : List (Entry κ ν ε φ)) (k : κ) :
    (insertAll m es).find k = (m.find k).or ((es.find? (·.key = k)).map Entry.value) := by
  induction es generalizing m with
  | nil => exact (Option.or_none).symm
  | cons e es ih =>
      change (insertAll (m.insert e.key e.value).1 es).find k = _
      rw [ih, UnorderedMap.find_insert, Option.or_assoc, List.find?_cons]
      by_cases hkey : k = e.key
      · simp [hkey]
      · simp [hkey, Ne.symm hkey]

theorem mem_clashes_iff {keys : List κ} {es : List (Entry κ ν ε φ)} {e : Entry κ ν ε φ} :
    e ∈ clashes keys es ↔ ∃ before behind, es = before ++ e :: behind ∧
      (e.key ∈ keys ∨ ∃ e' ∈ before, e'.key = e.key) := by
  induction es generalizing keys with
  | nil => simp [clashes]
  | cons e₁ es ih =>
      have hcons : (∃ before behind, e₁ :: es = before ++ e :: behind ∧
            (e.key ∈ keys ∨ ∃ e' ∈ before, e'.key = e.key)) ↔
          e = e₁ ∧ e.key ∈ keys ∨ ∃ before behind, es = before ++ e :: behind ∧
            ((e.key ∈ keys ∨ e₁.key = e.key) ∨ ∃ e' ∈ before, e'.key = e.key) := by
        constructor
        · rintro ⟨before, behind, hsplit, hkey⟩
          cases before with
          | nil =>
              obtain ⟨rfl, -⟩ := List.cons.inj hsplit
              exact .inl ⟨rfl, by simpa using hkey⟩
          | cons e₂ before =>
              obtain ⟨rfl, rfl⟩ := List.cons.inj hsplit
              exact .inr ⟨before, behind, rfl, by simpa [or_assoc] using hkey⟩
        · rintro (⟨rfl, hkey⟩ | ⟨before, behind, rfl, hkey⟩)
          · exact ⟨[], es, rfl, .inl hkey⟩
          · exact ⟨e₁ :: before, behind, rfl, by simpa [or_assoc] using hkey⟩
      rw [hcons, clashes]
      split
      · rename_i hkey
        rw [List.mem_cons, ih]
        constructor
        · rintro (rfl | ⟨before, behind, hsplit, h⟩)
          · exact .inl ⟨rfl, hkey⟩
          · exact .inr ⟨before, behind, hsplit, h.imp_left .inl⟩
        · rintro (⟨rfl, -⟩ | ⟨before, behind, hsplit, (h | h) | h⟩)
          · exact .inl rfl
          · exact .inr ⟨before, behind, hsplit, .inl h⟩
          · exact .inr ⟨before, behind, hsplit, .inl (h ▸ hkey)⟩
          · exact .inr ⟨before, behind, hsplit, .inr h⟩
      · rename_i hkey
        rw [ih]
        simp only [List.mem_append, List.mem_singleton, eq_comm (a := e₁.key)]
        constructor
        · exact .inr
        · rintro (⟨rfl, h⟩ | h)
          · exact absurd h hkey
          · exact h

/-- Filing goes through exactly when nothing throws that is filed under a key taken. -/
theorem exists_foldlM_file_iff {es : List (Entry κ ν ε φ)} {st : Filing κ ν ε} :
    (∃ st', es.foldlM file st = .ok st') ↔ ∀ e ∈ clashes st.map.keys es, ∃ note, e.taken = .ok note := by
  rw [foldlM_file, ← exists_mapM_eq_ok_iff]
  cases (clashes st.map.keys es).mapM Entry.taken with
  | error e => simp [Except.map]
  | ok notes => simp [Except.map]

theorem clashes_congr {keys keys' : List κ} (h : ∀ k, k ∈ keys ↔ k ∈ keys') (es : List (Entry κ ν ε φ)) :
    clashes keys es = clashes keys' es := by
  induction es generalizing keys keys' with
  | nil => rfl
  | cons e es ih =>
      have hnext : ∀ k, k ∈ keys ++ [e.key] ↔ k ∈ keys' ++ [e.key] := by
        intro k
        rw [List.mem_append, List.mem_append, h]
      rw [clashes, clashes, ih h, ih hnext]
      simp only [h]

theorem clashes_append (keys : List κ) (es es' : List (Entry κ ν ε φ)) :
    clashes keys (es ++ es') = clashes keys es ++ clashes (keys ++ es.map Entry.key) es' := by
  induction es generalizing keys with
  | nil => simp [clashes]
  | cons e es ih =>
      rw [List.cons_append, clashes, clashes, List.map_cons]
      split
      · rename_i hkey
        rw [ih, List.cons_append]
        congr 2
        apply clashes_congr
        intro k
        simp only [List.mem_append, List.mem_cons]
        constructor
        · exact Or.imp_right .inr
        · rintro (h | rfl | h)
          · exact .inl h
          · exact .inl hkey
          · exact .inr h
      · rw [ih, List.append_assoc, List.singleton_append]

theorem clashes_of_nodup {es : List (Entry κ ν ε φ)} (h : (es.map Entry.key).Nodup) (keys : List κ) :
    clashes keys es = es.filter (·.key ∈ keys) := by
  induction es generalizing keys with
  | nil => rfl
  | cons e es ih =>
      rw [List.map_cons, List.nodup_cons] at h
      rw [clashes, ih h.2, ih h.2, List.filter_cons]
      split
      · rename_i hkey
        rw [if_pos (by simpa using hkey)]
      · rename_i hkey
        rw [if_neg (by simpa using hkey)]
        apply List.filter_congr
        intro e' he'
        have hne : e'.key ≠ e.key := fun hsame => h.1 (hsame ▸ List.mem_map_of_mem he')
        simp [hne]

theorem clashes_eq_nil_iff {keys : List κ} {es : List (Entry κ ν ε φ)} :
    clashes keys es = [] ↔ (es.map Entry.key).Nodup ∧ ∀ e ∈ es, e.key ∉ keys := by
  induction es generalizing keys with
  | nil => simp [clashes]
  | cons e es ih =>
      rw [clashes, List.map_cons, List.nodup_cons, List.forall_mem_cons]
      split
      · rename_i hkey
        simp [hkey]
      · rename_i hkey
        rw [ih]
        simp only [List.mem_append, List.mem_singleton, not_or, List.mem_map, not_exists, not_and]
        constructor
        · rintro ⟨hnodup, h⟩
          exact ⟨⟨fun e' he' => (h e' he').2, hnodup⟩, hkey, fun e' he' => (h e' he').1⟩
        · rintro ⟨⟨hne, hnodup⟩, -, h⟩
          exact ⟨hnodup, fun e' he' => ⟨h e' he', hne e' he'⟩⟩

/-- Every note is that of an entry. -/
theorem exists_of_mem_notes {es : List (Entry κ ν ε φ)} {st : Filing κ ν ε}
    (h : es.foldlM file ({} : Filing κ ν ε) = .ok st) {note : ε} (hnote : note ∈ st.notes) :
    ∃ e ∈ es, e.taken = .ok note := by
  rw [foldlM_file] at h
  cases hnotes : (clashes (∅ : UnorderedMap κ ν).keys es).mapM Entry.taken with
  | error e =>
      rw [hnotes] at h
      cases h
  | ok notes =>
      rw [hnotes] at h
      cases h
      obtain ⟨e, he, _, htaken, rfl⟩ := (exists_mem_iff_of_mapM hnotes (P := (· = note))).mp ⟨note, hnote, rfl⟩
      obtain ⟨before, behind, hsplit, -⟩ := mem_clashes_iff.mp he
      exact ⟨e, hsplit ▸ List.mem_append_right _ List.mem_cons_self, htaken⟩

/-- Nothing is noted exactly when all keys are distinct. -/
theorem foldlM_file_eq_ok_nil_iff {es : List (Entry κ ν ε φ)} {m : UnorderedMap κ ν} :
    es.foldlM file ({} : Filing κ ν ε) = .ok ⟨m, []⟩ ↔ (es.map Entry.key).Nodup ∧ m = insertAll ∅ es := by
  have hkeys : (∅ : UnorderedMap κ ν).keys = [] := rfl
  have hnodup : clashes [] es = [] ↔ (es.map Entry.key).Nodup := by simp [clashes_eq_nil_iff]
  rw [foldlM_file, hkeys, ← hnodup]
  cases hclashes : clashes [] es with
  | nil =>
      show Except.ok _ = Except.ok _ ↔ _
      simp [eq_comm]
  | cons e clashes =>
      rw [List.mapM_cons]
      cases e.taken with
      | error e => simp [Except.map, bind, Except.bind]
      | ok note =>
          cases clashes.mapM Entry.taken with
          | error e => simp [Except.map, bind, Except.bind]
          | ok notes => simp [Except.map, bind, Except.bind, pure, Except.pure]

/-! ### Sources -/

/-- The entries of sources, one source behind the other; what comes of a key taken depends on the source. -/
def placedFrom (taken : ℕ → κ → Except φ ε) (n : ℕ) (sources : List (List (κ × ν))) : List (Entry κ ν ε φ) :=
  (sources.zipIdx n).flatMap fun source => source.1.map fun e => ⟨e.1, e.2, taken source.2 e.1⟩

abbrev placed (taken : ℕ → κ → Except φ ε) : List (List (κ × ν)) → List (Entry κ ν ε φ) := placedFrom taken 0

omit [DecidableEq κ] in
theorem placedFrom_cons (taken : ℕ → κ → Except φ ε) (n : ℕ) (source : List (κ × ν))
    (sources : List (List (κ × ν))) :
    placedFrom taken n (source :: sources) =
      source.map (fun e => ⟨e.1, e.2, taken n e.1⟩) ++ placedFrom taken (n + 1) sources := by
  unfold placedFrom
  rw [List.zipIdx_cons, List.flatMap_cons]

omit [DecidableEq κ] in
theorem keys_placedFrom (taken : ℕ → κ → Except φ ε) (n : ℕ) (sources : List (List (κ × ν))) :
    (placedFrom taken n sources).map Entry.key = sources.flatten.map Prod.fst := by
  induction sources generalizing n with
  | nil => rfl
  | cons source sources ih =>
      rw [placedFrom_cons, List.map_append, List.flatten_cons, List.map_append, ih, List.map_map]
      rfl

omit [DecidableEq κ] in
theorem exists_of_mem_placed {taken : ℕ → κ → Except φ ε} {sources : List (List (κ × ν))} {e : Entry κ ν ε φ}
    (h : e ∈ placed taken sources) : ∃ n < sources.length, e.taken = taken n e.key := by
  obtain ⟨source, hsource, he⟩ := List.mem_flatMap.mp h
  obtain ⟨e', -, rfl⟩ := List.mem_map.mp he
  exact ⟨source.2, by simpa using (List.mem_zipIdx hsource).2.1, rfl⟩

theorem find?_placedFrom (taken : ℕ → κ → Except φ ε) (n : ℕ) (sources : List (List (κ × ν))) (k : κ) :
    ((placedFrom taken n sources).find? (·.key = k)).map Entry.value =
      (sources.flatten.find? (·.1 = k)).map Prod.snd := by
  induction sources generalizing n with
  | nil => rfl
  | cons source sources ih =>
      rw [placedFrom_cons, List.find?_append, List.flatten_cons, List.find?_append, Option.map_or, Option.map_or,
        ih, List.find?_map, Option.map_map]
      rfl

/-- The key of an entry occurs in one of these sources. -/
def OccursIn (sources : List (List (κ × ν))) (k : κ) : Prop := ∃ source ∈ sources, k ∈ source.map Prod.fst

instance (sources : List (List (κ × ν))) (k : κ) : Decidable (OccursIn sources k) :=
  inferInstanceAs (Decidable (∃ source ∈ sources, k ∈ source.map Prod.fst))

theorem clashes_placedFrom (taken : ℕ → κ → Except φ ε) (n : ℕ) {sources : List (List (κ × ν))}
    (h : ∀ source ∈ sources, (source.map Prod.fst).Nodup) (keys : List κ) :
    clashes keys (placedFrom taken n sources) = (sources.zipIdx n).flatMap fun source =>
      (source.1.filter fun e => e.1 ∈ keys ∨ OccursIn (sources.take (source.2 - n)) e.1).map
        fun e => ⟨e.1, e.2, taken source.2 e.1⟩ := by
  induction sources generalizing n keys with
  | nil => rfl
  | cons source sources ih =>
      rw [List.forall_mem_cons] at h
      have hkeys : (source.map fun e => (⟨e.1, e.2, taken n e.1⟩ : Entry κ ν ε φ)).map Entry.key =
          source.map Prod.fst := by
        rw [List.map_map]
        rfl
      rw [placedFrom_cons, clashes_append, clashes_of_nodup (by rw [hkeys]; exact h.1), hkeys, ih (n + 1) h.2,
        List.zipIdx_cons, List.flatMap_cons, List.filter_map]
      congr 1
      · simp [OccursIn, Function.comp_def]
      · apply List.flatMap_congr
        intro s hs
        congr 1
        apply List.filter_congr
        intro e _
        obtain ⟨i, hi⟩ : ∃ i, s.2 = n + 1 + i := ⟨s.2 - (n + 1), by have hle := (List.mem_zipIdx hs).1; omega⟩
        have htake : s.2 - n = i + 1 := by omega
        have htake' : s.2 - (n + 1) = i := by omega
        rw [htake, htake', List.take_succ_cons, decide_eq_decide]
        unfold OccursIn
        rw [List.exists_mem_cons_iff, List.mem_append, or_assoc]

/-- The keys that occur in a source before, with the positions of the sources. -/
def repeated (sources : List (List (κ × ν))) : List (ℕ × κ) :=
  sources.zipIdx.flatMap fun source =>
    (source.1.filter fun e => OccursIn (sources.take source.2) e.1).map fun e => (source.2, e.1)

/-- The source at a position has a key. -/
def HasKey (sources : List (List (κ × ν))) (n : ℕ) (k : κ) : Prop :=
  ∃ source, sources[n]? = some source ∧ k ∈ source.map Prod.fst

omit [DecidableEq κ] in
theorem occursIn_take_iff {sources : List (List (κ × ν))} {n : ℕ} {k : κ} :
    OccursIn (sources.take n) k ↔ ∃ n' < n, HasKey sources n' k := by
  unfold OccursIn HasKey
  constructor
  · rintro ⟨source, hsource, hkey⟩
    obtain ⟨n', hn', rfl⟩ := List.mem_take_iff_getElem.mp hsource
    rw [lt_min_iff] at hn'
    exact ⟨n', hn'.1, _, List.getElem?_eq_getElem hn'.2, hkey⟩
  · rintro ⟨n', hlt, source, hsource, hkey⟩
    obtain ⟨hn', rfl⟩ := List.getElem?_eq_some_iff.mp hsource
    exact ⟨_, List.mem_take_iff_getElem.mpr ⟨n', lt_min hlt hn', rfl⟩, hkey⟩

theorem mem_repeated_iff {sources : List (List (κ × ν))} {p : ℕ × κ} :
    p ∈ repeated sources ↔ HasKey sources p.1 p.2 ∧ ∃ n < p.1, HasKey sources n p.2 := by
  rw [← occursIn_take_iff]
  unfold repeated HasKey
  simp only [List.mem_flatMap, List.mem_map, List.mem_filter, decide_eq_true_iff]
  constructor
  · rintro ⟨source, hsource, e, ⟨he, hoccurs⟩, rfl⟩
    exact ⟨⟨source.1, List.mem_zipIdx_iff_getElem?.mp hsource, e, he, rfl⟩, hoccurs⟩
  · rintro ⟨⟨source, hsource, e, he, hkey⟩, hoccurs⟩
    refine ⟨(source, p.1), List.mem_zipIdx_iff_getElem?.mpr hsource, e, ⟨he, hkey ▸ hoccurs⟩, ?_⟩
    rw [hkey]

theorem ne_zero_of_mem_repeated {sources : List (List (κ × ν))} {p : ℕ × κ} (h : p ∈ repeated sources) :
    p.1 ≠ 0 := by
  obtain ⟨n, hlt, -⟩ := (mem_repeated_iff.mp h).2
  exact Nat.ne_zero_of_lt hlt

theorem nodup_repeated {sources : List (List (κ × ν))} (h : ∀ source ∈ sources, (source.map Prod.fst).Nodup) :
    (repeated sources).Nodup := by
  unfold repeated
  rw [List.nodup_flatMap]
  constructor
  · intro source hsource
    have hnodup := h source.1 (List.fst_mem_of_mem_zipIdx hsource)
    have hfilter := hnodup.sublist ((List.filter_sublist (p := fun e =>
      decide (OccursIn (sources.take source.2) e.1)) (l := source.1)).map Prod.fst)
    rw [List.nodup_map_iff_inj_on hfilter.of_map]
    intro e he e' he' heq
    exact List.inj_on_of_nodup_map hfilter he he' (congrArg Prod.snd heq)
  · have hpositions : (sources.zipIdx.map Prod.snd).Nodup := by
      rw [List.zipIdx_map_snd]
      exact List.nodup_range'
    rw [List.Nodup, List.pairwise_map] at hpositions
    refine hpositions.imp ?_
    intro source source' hne
    show List.Disjoint _ _
    intro p hp hp'
    obtain ⟨e, -, rfl⟩ := List.mem_map.mp hp
    obtain ⟨e', -, heq⟩ := List.mem_map.mp hp'
    exact hne (congrArg Prod.fst heq).symm

/-- What sources leave in the map when each is clear in itself: the first value of each key, and a note for each
key that occurs in a source before. -/
theorem foldlM_file_placed {taken : ℕ → κ → Except φ ε} (note : ℕ → κ → ε) {sources : List (List (κ × ν))}
    (h : ∀ source ∈ sources, (source.map Prod.fst).Nodup) (hnote : ∀ n k, n ≠ 0 → taken n k = .ok (note n k)) :
    (placed taken sources).foldlM file ({} : Filing κ ν ε) = .ok
      ⟨insertAll ∅ (placed taken sources), (repeated sources).map fun p => note p.1 p.2⟩ := by
  have hkeys : (∅ : UnorderedMap κ ν).keys = [] := rfl
  have hclashes : (clashes [] (placed taken sources)).mapM Entry.taken =
      (repeated sources).mapM fun p => taken p.1 p.2 := by
    rw [clashes_placedFrom taken 0 h []]
    unfold repeated
    simp only [List.not_mem_nil, false_or, Nat.sub_zero]
    induction sources.zipIdx with
    | nil => rfl
    | cons source sources' ih =>
        rw [List.flatMap_cons, List.flatMap_cons, List.mapM_append, List.mapM_append, ih, List.mapM_map,
          List.mapM_map]
        rfl
  rw [foldlM_file, hkeys, hclashes, mapM_eq_ok_map fun p hp => hnote p.1 p.2 (ne_zero_of_mem_repeated hp)]
  rfl

/-- Sources can be filed when a note is taken in every source but the first one, and no key occurs twice in
that one. -/
theorem exists_foldlM_file_placed_iff {taken : ℕ → κ → Except φ ε} {sources : List (List (κ × ν))}
    (hfirst : ∀ k, ∀ note, taken 0 k ≠ .ok note) (hnote : ∀ n k, n ≠ 0 → ∃ note, taken n k = .ok note) :
    (∃ st, (placed taken sources).foldlM file ({} : Filing κ ν ε) = .ok st) ↔
      ∀ source ∈ sources.head?, (source.map Prod.fst).Nodup := by
  have hkeys : (∅ : UnorderedMap κ ν).keys = [] := rfl
  rw [exists_foldlM_file_iff, hkeys]
  cases sources with
  | nil => simp [placedFrom, clashes]
  | cons source sources =>
      rw [placed, placedFrom_cons, clashes_append, List.forall_mem_append, List.head?_cons]
      have hrest : ∀ keys, ∀ e ∈ clashes keys (placedFrom taken (0 + 1) sources), ∃ note, e.taken = .ok note := by
        intro keys e he
        obtain ⟨before, behind, hsplit, -⟩ := mem_clashes_iff.mp he
        have hmem : e ∈ placedFrom taken (0 + 1) sources := hsplit ▸ List.mem_append_right _ List.mem_cons_self
        unfold placedFrom at hmem
        obtain ⟨s, hs, hmem⟩ := List.mem_flatMap.mp hmem
        obtain ⟨e', -, rfl⟩ := List.mem_map.mp hmem
        have hle := (List.mem_zipIdx hs).1
        exact hnote _ _ (by omega)
      rw [and_iff_left (hrest _)]
      have hnil : (∀ e ∈ clashes [] (source.map fun e => (⟨e.1, e.2, taken 0 e.1⟩ : Entry κ ν ε φ)),
            ∃ note, e.taken = .ok note) ↔
          clashes [] (source.map fun e => (⟨e.1, e.2, taken 0 e.1⟩ : Entry κ ν ε φ)) = [] := by
        rw [List.eq_nil_iff_forall_not_mem]
        apply forall_congr'
        intro e
        apply imp_congr_right
        intro he
        obtain ⟨before, behind, hsplit, -⟩ := mem_clashes_iff.mp he
        have hmem : e ∈ source.map fun e => (⟨e.1, e.2, taken 0 e.1⟩ : Entry κ ν ε φ) :=
          hsplit ▸ List.mem_append_right _ List.mem_cons_self
        obtain ⟨e', -, rfl⟩ := List.mem_map.mp hmem
        simpa using hfirst e'.1
      rw [hnil, clashes_eq_nil_iff, List.map_map]
      simp [Function.comp_def]

end Filing

end Lib
