import SchemaTypings.Files.Search
import SchemaTypings.Proofs.Outcomes

namespace SchemaTypings.Files

/-- The paths that are the first of their spellings. -/
def distinct : List String → List String
  | [] => []
  | p :: r => p :: (distinct r).filter fun q => components q ≠ components p

def Listed (p : String) (l : List String) : Prop :=
  components p ∈ l.map components

instance (p : String) (l : List String) : Decidable (Listed p l) :=
  inferInstanceAs (Decidable (_ ∈ _))

section Distinct

variable {p : String} {l found paths : List String}

theorem listed_of_mem (h : p ∈ l) : Listed p l :=
  List.mem_map_of_mem h

theorem listed_cons (p q : String) (l : List String) :
    Listed p (q :: l) ↔ components p = components q ∨ Listed p l :=
  List.mem_cons

theorem listed_append (p : String) (l r : List String) :
    Listed p (l ++ r) ↔ Listed p l ∨ Listed p r := by
  rw [Listed, List.map_append]
  exact List.mem_append

theorem listed_flatten (p : String) (ls : List (List String)) :
    Listed p ls.flatten ↔ ∃ l ∈ ls, Listed p l := by
  simp only [Listed, List.map_flatten, List.mem_flatten, List.mem_map]
  constructor
  · rintro ⟨_, ⟨l, hl, rfl⟩, hp⟩
    exact ⟨l, hl, List.mem_map.1 hp⟩
  · rintro ⟨l, hl, hp⟩
    exact ⟨_, ⟨l, hl, rfl⟩, List.mem_map.2 hp⟩

theorem addPaths_cons (found : List String) (p : String) (l : List String) :
    addPaths found (p :: l) =
      if Listed p found then addPaths found l else addPaths (found ++ [p]) l := by
  have hany : (found.any fun q => components q == components p) = true ↔ Listed p found := by
    simp [Listed]
  by_cases h : Listed p found
  · rw [if_pos h, addPaths, List.foldl_cons, if_pos (hany.2 h)]
    rfl
  · rw [if_neg h, addPaths, List.foldl_cons, if_neg (mt hany.1 h)]
    rfl

theorem addPaths_append (found l r : List String) :
    addPaths found (l ++ r) = addPaths (addPaths found l) r :=
  List.foldl_append ..

/-- Of what is added, everything that is not there yet comes behind, each path once. -/
theorem addPaths_eq (found l : List String) :
    addPaths found l = found ++ (distinct l).filter fun p => ¬ Listed p found := by
  induction l generalizing found with
  | nil => exact (List.append_nil found).symm
  | cons p l ih =>
    rw [addPaths_cons, distinct, List.filter_cons, List.filter_filter]
    by_cases h : Listed p found
    · have hkeep : ∀ q ∈ distinct l, decide (¬ Listed q found) =
          (decide (¬ Listed q found) && decide (components q ≠ components p)) := by
        intro q _
        by_cases hq : components q = components p
        · have hlisted : Listed q found := by rwa [Listed, hq]
          simp [hlisted]
        · simp [hq]
      rw [if_pos h, if_neg (by simpa using h), ih, List.filter_congr hkeep]
    · have hkeep : ∀ q ∈ distinct l, decide (¬ Listed q (found ++ [p])) =
          (decide (¬ Listed q found) && decide (components q ≠ components p)) := by
        intro q _
        have hone : Listed q [p] ↔ components q = components p := List.mem_singleton
        simp [listed_append, hone]
      rw [if_neg h, if_pos (by simpa using h), ih, List.filter_congr hkeep, List.append_assoc,
        List.singleton_append]

theorem distinct_eq_addPaths (l : List String) : distinct l = addPaths [] l := by
  have hall : ∀ p ∈ distinct l, decide (¬ Listed p []) = true := by
    simp [Listed]
  rw [addPaths_eq, List.filter_eq_self.2 hall, List.nil_append]

theorem nodup_distinct (l : List String) : ((distinct l).map components).Nodup := by
  induction l with
  | nil => exact List.nodup_nil
  | cons p l ih =>
    have hsub := (List.filter_sublist (p := fun q => components q ≠ components p)
      (l := distinct l)).map components
    refine List.nodup_cons.2 ⟨fun hm => ?_, ih.sublist hsub⟩
    obtain ⟨q, hq, he⟩ := List.mem_map.1 hm
    exact (of_decide_eq_true (List.mem_filter.1 hq).2) he

theorem mem_of_mem_distinct (h : p ∈ distinct l) : p ∈ l := by
  induction l with
  | nil => exact h
  | cons q l ih =>
    obtain rfl | h := List.mem_cons.1 h
    · exact List.mem_cons_self
    · exact List.mem_cons_of_mem _ (ih ((List.mem_filter.1 h).1))

theorem listed_distinct (p : String) (l : List String) : Listed p (distinct l) ↔ Listed p l := by
  induction l with
  | nil => exact Iff.rfl
  | cons q l ih =>
    rw [distinct, listed_cons, listed_cons, ← ih]
    by_cases he : components p = components q
    · exact iff_of_true (.inl he) (.inl he)
    · refine or_congr_right ⟨fun h => ?_, fun h => ?_⟩
      · obtain ⟨r, hr, hrp⟩ := List.mem_map.1 h
        exact List.mem_map.2 ⟨r, (List.mem_filter.1 hr).1, hrp⟩
      · obtain ⟨r, hr, hrp⟩ := List.mem_map.1 h
        have hne : components r ≠ components q := fun h => he (hrp.symm.trans h)
        exact List.mem_map.2 ⟨r, List.mem_filter.2 ⟨hr, decide_eq_true hne⟩, hrp⟩

theorem addPaths_eq_self (h : ∀ p ∈ paths, Listed p found) : addPaths found paths = found := by
  have hnone : ∀ p ∈ distinct paths, ¬ decide (¬ Listed p found) = true := by
    intro p hp
    simpa using h p (mem_of_mem_distinct hp)
  rw [addPaths_eq, List.filter_eq_nil_iff.2 hnone, List.append_nil]

end Distinct

def filesMatching (t : FileTree) (dir pattern : String) : Except SearchFault (List String) := do
  let matched ← (matchingPaths t (patternIn dir pattern)).mapError .malformed
  let paths ← (matched.mapM id).mapError .io
  return paths.filter t.isFile

theorem foldlM_addPaths {ε : Type} (find : String → Except ε (List String))
    (ps found : List String) :
    ps.foldlM (fun found p => return addPaths found (← find p)) found =
      (ps.mapM find).map fun ls => addPaths found ls.flatten := by
  induction ps generalizing found with
  | nil => rfl
  | cons p ps ih =>
    rw [List.foldlM_cons, List.mapM_cons]
    cases hp : find p with
    | error e => rfl
    | ok l =>
      have hrest := ih (addPaths found l)
      change ps.foldlM _ (addPaths found l) = _
      rw [hrest]
      cases ps.mapM find with
      | error e => rfl
      | ok ls => exact congrArg Except.ok (addPaths_append found l ls.flatten).symm

variable (t : FileTree) (dir : String)

theorem discover_eq (ps : List String) :
    discover t dir ps = (ps.mapM (filesMatching t dir)).map fun ls => distinct ls.flatten := by
  have hstep : (fun found p => do
        let matched ← (matchingPaths t (patternIn dir p)).mapError SearchFault.malformed
        let paths ← (matched.mapM id).mapError SearchFault.io
        return addPaths found (paths.filter t.isFile)) =
      fun found p => (do return addPaths found (← filesMatching t dir p)) := by
    funext found p
    rw [filesMatching]
    cases matchingPaths t (patternIn dir p) with
    | error e => rfl
    | ok matched =>
      change (matched.mapM id).mapError SearchFault.io >>= _ =
        ((matched.mapM id).mapError SearchFault.io >>= _) >>= _
      cases matched.mapM id <;> rfl
  rw [discover, hstep, foldlM_addPaths]
  simp only [distinct_eq_addPaths]

section Results

variable {t : FileTree} {dir p : String} {ps found : List String}

theorem matchingPaths_eq_error_iff {pattern : String} {e : PatternError} :
    matchingPaths t pattern = .error e ↔ steps pattern = .error e :=
  map_eq_error_iff

theorem exists_of_matchingPaths {pattern : String} {x : Except ReadFault String}
    {matched : List (Except ReadFault String)} (h : matchingPaths t pattern = .ok matched)
    (hx : x ∈ matched) :
    ∃ ss, steps pattern = .ok ss ∧
      ∃ found ∈ walk t ss (t.placeAt (searchRoot pattern)), found.map Place.path = x := by
  obtain ⟨ss, hss, rfl⟩ := map_eq_ok_iff.1 h
  obtain ⟨found, hfound, hx⟩ := List.mem_filterMap.1 hx
  refine ⟨ss, hss, found, hfound, ?_⟩
  cases found with
  | error f => exact Option.some.inj hx
  | ok q =>
    dsimp only at hx
    split at hx
    · exact Option.some.inj hx
    · cases hx

theorem filesMatching_eq_ok_iff {l : List String} :
    filesMatching t dir p = .ok l ↔
      ∃ paths : List String, matchingPaths t (patternIn dir p) = .ok (paths.map .ok) ∧
        paths.filter t.isFile = l := by
  rw [filesMatching, mapError_bind_eq_ok_iff]
  constructor
  · rintro ⟨matched, hmatched, h⟩
    obtain ⟨paths, hpaths, hl⟩ := mapError_bind_eq_ok_iff.1 h
    have hall := mapM_eq_ok_iff.1 hpaths
    rw [List.map_id] at hall
    exact ⟨paths, hall ▸ hmatched, Except.ok.inj hl⟩
  · rintro ⟨paths, hpaths, rfl⟩
    have hall : (paths.map .ok).mapM id = Except.ok (ε := ReadFault) paths :=
      mapM_eq_ok_iff.2 (List.map_id _)
    exact ⟨_, hpaths, mapError_bind_eq_ok_iff.2 ⟨paths, hall, rfl⟩⟩

theorem filesMatching_malformed_iff {e : PatternError} :
    filesMatching t dir p = .error (.malformed e) ↔ steps (patternIn dir p) = .error e := by
  rw [filesMatching, mapError_bind_eq_error_iff, ← matchingPaths_eq_error_iff (t := t)]
  constructor
  · rintro (⟨e', he, h⟩ | ⟨matched, -, h⟩)
    · rwa [← SearchFault.malformed.inj h]
    · obtain ⟨f, -, hf⟩ | ⟨paths, -, hf⟩ := mapError_bind_eq_error_iff.1 h
      · cases hf
      · cases hf
  · exact fun h => .inl ⟨e, h, rfl⟩

theorem filesMatching_io_iff {f : ReadFault} :
    filesMatching t dir p = .error (.io f) ↔
      ∃ matched, matchingPaths t (patternIn dir p) = .ok matched ∧ FirstFailure id matched f := by
  rw [filesMatching, mapError_bind_eq_error_iff]
  constructor
  · rintro (⟨e, -, h⟩ | ⟨matched, hmatched, h⟩)
    · cases h
    · obtain ⟨f', hf, h⟩ | ⟨paths, -, h⟩ := mapError_bind_eq_error_iff.1 h
      · obtain rfl := SearchFault.io.inj h
        exact ⟨matched, hmatched, mapM_eq_error_iff.1 hf⟩
      · cases h
  · rintro ⟨matched, hmatched, h⟩
    exact .inr ⟨matched, hmatched,
      mapError_bind_eq_error_iff.2 (.inl ⟨f, mapM_eq_error_iff.2 h, rfl⟩)⟩

theorem discover_eq_error_iff {e : SearchFault} :
    discover t dir ps = .error e ↔ FirstFailure (filesMatching t dir) ps e := by
  rw [discover_eq, map_eq_error_iff, mapM_eq_error_iff]

theorem exists_of_discover (h : discover t dir ps = .ok found) :
    ∃ ls, ps.mapM (filesMatching t dir) = .ok ls ∧ distinct ls.flatten = found := by
  rw [discover_eq] at h
  exact map_eq_ok_iff.1 h

theorem mem_paths_of_discover (h : discover t dir ps = .ok found) {q : String} (hq : q ∈ found) :
    ∃ p ∈ ps, ∃ paths : List String,
      matchingPaths t (patternIn dir p) = .ok (paths.map .ok) ∧ q ∈ paths := by
  obtain ⟨ls, hls, rfl⟩ := exists_of_discover h
  obtain ⟨l, hl, hql⟩ := List.mem_flatten.1 (mem_of_mem_distinct hq)
  obtain ⟨p, hp, hpl⟩ := (mem_of_mapM hls).1 hl
  obtain ⟨paths, hpaths, rfl⟩ := filesMatching_eq_ok_iff.1 hpl
  exact ⟨p, hp, paths, hpaths, (List.mem_filter.1 hql).1⟩

theorem listed_discover (h : discover t dir ps = .ok found) (q : String) :
    Listed q found ↔ ∃ p ∈ ps, ∃ l, filesMatching t dir p = .ok l ∧ Listed q l := by
  obtain ⟨ls, hls, rfl⟩ := exists_of_discover h
  rw [listed_distinct, listed_flatten]
  constructor
  · rintro ⟨l, hl, hq⟩
    obtain ⟨p, hp, hpl⟩ := (mem_of_mapM hls).1 hl
    exact ⟨p, hp, l, hpl, hq⟩
  · rintro ⟨p, hp, l, hpl, hq⟩
    exact ⟨l, (mem_of_mapM hls).2 ⟨p, hp, hpl⟩, hq⟩

/-- A path is found if and only if it is a regular file that a pattern matches. -/
theorem exists_mem_discover_iff (h : discover t dir ps = .ok found) (q : String) :
    (∃ r ∈ found, components r = components q) ↔
      ∃ p ∈ ps, ∃ paths : List String, matchingPaths t (patternIn dir p) = .ok (paths.map .ok) ∧
        ∃ r ∈ paths, t.isFile r = true ∧ components r = components q := by
  refine List.mem_map.symm.trans ((listed_discover h q).trans ⟨?_, ?_⟩)
  · rintro ⟨p, hp, l, hl, hq⟩
    obtain ⟨paths, hpaths, rfl⟩ := filesMatching_eq_ok_iff.1 hl
    obtain ⟨r, hr, he⟩ := List.mem_map.1 hq
    obtain ⟨hr, hfile⟩ := List.mem_filter.1 hr
    exact ⟨p, hp, paths, hpaths, r, hr, hfile, he⟩
  · rintro ⟨p, hp, paths, hpaths, r, hr, hfile, he⟩
    have hl := filesMatching_eq_ok_iff.2 ⟨paths, hpaths, rfl⟩
    exact ⟨p, hp, _, hl, List.mem_map.2 ⟨r, List.mem_filter.2 ⟨hr, hfile⟩, he⟩⟩

theorem discover_append (h : discover t dir ps = .ok found) (qs : List String) :
    discover t dir (ps ++ qs) =
      (qs.mapM (filesMatching t dir)).map fun ms => addPaths found ms.flatten := by
  obtain ⟨ls, hls, rfl⟩ := exists_of_discover h
  rw [discover_eq, List.mapM_append, hls]
  cases qs.mapM (filesMatching t dir) with
  | error e => rfl
  | ok ms =>
    have hflatten : distinct (ls ++ ms).flatten = addPaths (distinct ls.flatten) ms.flatten := by
      rw [List.flatten_append, distinct_eq_addPaths, distinct_eq_addPaths, addPaths_append]
    exact congrArg Except.ok hflatten

theorem discover_append_error {e : SearchFault} (h : discover t dir ps = .error e)
    (qs : List String) : discover t dir (ps ++ qs) = .error e := by
  rw [discover_eq, map_eq_error_iff] at h
  rw [discover_eq, List.mapM_append, h]
  rfl

theorem prefix_discover (h : discover t dir ps = .ok found) {qs later : List String}
    (hl : discover t dir (ps ++ qs) = .ok later) : found <+: later := by
  rw [discover_append h] at hl
  obtain ⟨ms, -, rfl⟩ := map_eq_ok_iff.1 hl
  rw [addPaths_eq]
  exact List.prefix_append _ _

/-- A pattern that is given again finds nothing new. -/
theorem discover_again (hp : p ∈ ps) (qs : List String) :
    discover t dir (ps ++ p :: qs) = discover t dir (ps ++ qs) := by
  cases h : discover t dir ps with
  | error e => rw [discover_append_error h, discover_append_error h]
  | ok found =>
    obtain ⟨ls, hls, -⟩ := exists_of_discover h
    obtain ⟨l, -, hl⟩ : ∃ l ∈ ls, .ok l = filesMatching t dir p := by
      rw [← List.mem_map, ← mapM_eq_ok_iff.1 hls]
      exact List.mem_map_of_mem hp
    have hknown : addPaths found l = found := addPaths_eq_self fun q hq =>
      (listed_discover h q).2 ⟨p, hp, l, hl.symm, listed_of_mem hq⟩
    rw [discover_append h, discover_append h, mapM_cons_ok hl.symm]
    cases qs.mapM (filesMatching t dir) with
    | error e => rfl
    | ok ms =>
      have hflatten : addPaths found (l :: ms).flatten = addPaths found ms.flatten := by
        rw [List.flatten_cons, addPaths_append, hknown]
      exact congrArg Except.ok hflatten

end Results

end SchemaTypings.Files
