import Mathlib.Logic.Function.Iterate
import SchemaTypings.Proofs.DistinctPaths
import SchemaTypings.Proofs.Walks

namespace SchemaTypings.Files

variable {t : FileTree} {dir p : String}

theorem trail_eq_flatMap (h : behindRoot dir ≠ "") : trail dir = (names dir).flatMap trail := by
  have hone : ∀ n ∈ splitSlashes (stem (behindRoot dir)),
      trail (String.ofList n) = [String.ofList n].filter fun p => p ≠ "" ∧ p ≠ "." := by
    intro n hn
    rw [trail, parts, String.toList_ofList, splitSlashes_of_noSlash (noSlash_of_mem_splitSlashes hn),
      List.map_singleton]
  rw [← trail_behindRoot, trail_eq_trail_stem, trail, parts, String.toList_ofList, names,
    partsBeforeEnd_eq h, List.flatMap_map, List.flatMap_congr hone, ← List.filter_flatMap,
    ← List.map_eq_flatMap]

theorem patternIn_fromHere (dir pattern : String) (n : Nat) :
    patternIn dir (("./" ++ ·)^[n] pattern) = patternIn dir pattern := by
  have hdrop : dropHere (("./" ++ ·)^[n] pattern).toList = dropHere pattern.toList := by
    induction n with
    | zero => rfl
    | succ n ih =>
      rw [Function.iterate_succ_apply', String.toList_append]
      exact ih
  rw [patternIn, hdrop]
  rfl

theorem discover_congr {ps qs : List String}
    (h : List.Forall₂ (fun p q => patternIn dir p = patternIn dir q) ps qs) :
    discover t dir ps = discover t dir qs := by
  have hfiles : ps.mapM (filesMatching t dir) = qs.mapM (filesMatching t dir) := by
    induction h with
    | nil => rfl
    | cons hpq _ ih => rw [List.mapM_cons, List.mapM_cons, ih, filesMatching, filesMatching, hpq]
  rw [discover_eq, discover_eq, hfiles]

/-- The parts of a directory are steps that accept just their names, in front of the steps of the
pattern itself. -/
theorem exists_leadingSteps (h : behindRoot dir ≠ "") : ∃ lead,
    List.Forall₂ Step.LeadsTo lead (names dir) ∧ ∀ p,
      (steps (patternIn dir p)).toOption = (ownSteps p).toOption.map (lead ++ ·) := by
  refine ⟨(names dir).map fun n : String => Step.named n.toList, ?_, toOption_steps_patternIn h⟩
  rw [List.forall₂_map_left_iff, List.forall₂_same]
  exact fun n _ m => Step.accepts_named n.toList m

theorem isAbsolute_searchRoot (pattern : String) :
    isAbsolute (searchRoot pattern) = isAbsolute pattern := by
  rw [searchRoot]
  cases isAbsolute pattern <;> rfl

theorem searchRoot_ne (pattern : String) :
    searchRoot pattern ≠ "" ∧ trail (searchRoot pattern) = [] := by
  rw [searchRoot]
  split <;> decide +kernel

theorem liesAlong_of_mem_walk {p : String} {ss : List Step} {x : Found}
    (hss : steps (patternIn dir p) = .ok ss)
    (h : x ∈ walk t ss (t.placeAt (searchRoot (patternIn dir p)))) :
    LiesAlong t (isAbsolute (patternIn dir p)) (trail dir) x := by
  have hentries := fun n => not_isAbsolute_of_mem_steps (n := n) hss
  obtain ⟨hroot, htrail⟩ := searchRoot_ne (patternIn dir p)
  rw [← isAbsolute_searchRoot]
  generalize searchRoot (patternIn dir p) = root at h hroot htrail ⊢
  by_cases hne : behindRoot dir = ""
  · have hdir : trail dir = trail root := by
      rw [← trail_behindRoot, hne, htrail]
      rfl
    rw [hdir]
    exact liesAlong_walk (p := t.placeAt root) hentries hroot h
  · obtain ⟨lead, hlead, hsteps⟩ := exists_leadingSteps hne
    have hsplit := hsteps p
    rw [hss] at hsplit
    obtain ⟨own, -, rfl⟩ := Option.map_eq_some_iff.1 hsplit.symm
    have hnames : ∀ n ∈ names dir, isAbsolute n = false := fun n hn =>
      not_isAbsolute_of_noSlash (noSlash_of_mem_partsBeforeEnd hn)
    have hown := fun n hn => hentries n (List.mem_append_right lead hn)
    have hx : LiesAlong t (isAbsolute root) (trail root ++ (names dir).flatMap trail) x :=
      liesAlong_walk_lead (p := t.placeAt root) hown hlead hnames hroot h
    rwa [htrail, List.nil_append, ← trail_eq_flatMap hne] at hx

theorem lies_of_matchingPaths {matched : List (Except ReadFault String)}
    (h : matchingPaths t (patternIn dir p) = .ok matched) :
    (∀ q, .ok q ∈ matched → (dir ≠ "" → isAbsolute q = isAbsolute dir) ∧ trail dir <+: trail q) ∧
    ∀ f, .error f ∈ matched → ∃ q, t.list q = .error f ∧
      (dir ≠ "" → isAbsolute q = isAbsolute dir) ∧
      (trail dir <+: trail q ∨ trail q <+: trail dir) := by
  have hlies : ∀ x ∈ matched, ∃ found : Found, found.map Place.path = x ∧
      LiesAlong t (isAbsolute (patternIn dir p)) (trail dir) found := by
    intro x hx
    obtain ⟨ss, hss, found, hfound, hx⟩ := exists_of_matchingPaths h hx
    exact ⟨found, hx, liesAlong_of_mem_walk hss hfound⟩
  constructor
  · intro q hq
    obtain ⟨found, hfound, hlies⟩ := hlies _ hq
    obtain ⟨place, rfl, rfl⟩ := map_eq_ok_iff.1 hfound
    exact ⟨fun hne => isAbsolute_patternIn hne p ▸ hlies.1, hlies.2⟩
  · intro f hf
    obtain ⟨found, hfound, hlies⟩ := hlies _ hf
    obtain rfl := map_eq_error_iff.1 hfound
    obtain ⟨q, hroot, hlist, htrail⟩ := hlies
    exact ⟨q, hlist, fun hne => isAbsolute_patternIn hne p ▸ hroot, htrail⟩

/-- What patterns find is the ordered union of the files that each of them matches, unless one of
them is malformed or comes to a directory that cannot be listed: the first such pattern decides the
error. Nothing is listed twice; more patterns only add to what is found, and the same ones again, or
with `./` in front, change nothing. No character of the directory is a wildcard: each of its names is
a step that leads only to what has this name, and all files that are found lie below it. -/
theorem discover_orderedUnion (t : FileTree) (dir : String) (ps : List String) :
    (∀ e, discover t dir ps = .error e ↔ FirstFailure (filesMatching t dir) ps e) ∧
    (∀ p e, filesMatching t dir p = .error (.malformed e) ↔ steps (patternIn dir p) = .error e) ∧
    (∀ p f, filesMatching t dir p = .error (.io f) ↔
      ∃ matched, matchingPaths t (patternIn dir p) = .ok matched ∧ FirstFailure id matched f) ∧
    (∀ p matched f, matchingPaths t (patternIn dir p) = .ok matched → .error f ∈ matched →
      ∃ q, t.list q = .error f ∧ (dir ≠ "" → isAbsolute q = isAbsolute dir) ∧
        (trail dir <+: trail q ∨ trail q <+: trail dir)) ∧
    (∀ p l, filesMatching t dir p = .ok l ↔ ∃ paths : List String,
      matchingPaths t (patternIn dir p) = .ok (paths.map .ok) ∧ paths.filter t.isFile = l) ∧
    discover t dir ps = (ps.mapM (filesMatching t dir)).map (fun ls => distinct ls.flatten) ∧
    (∀ found, discover t dir ps = .ok found →
      (found.map components).Nodup ∧
      (∀ q, (∃ r ∈ found, components r = components q) ↔
        ∃ p ∈ ps, ∃ paths : List String, matchingPaths t (patternIn dir p) = .ok (paths.map .ok) ∧
          ∃ r ∈ paths, t.isFile r = true ∧ components r = components q) ∧
      (∀ qs later, discover t dir (ps ++ qs) = .ok later → found <+: later) ∧
      ∀ q ∈ found, (dir ≠ "" → isAbsolute q = isAbsolute dir) ∧ trail dir <+: trail q) ∧
    (∀ p ∈ ps, ∀ qs, discover t dir (ps ++ p :: qs) = discover t dir (ps ++ qs)) ∧
    (∀ qs, List.Forall₂ (fun p q => ∃ n, q = ("./" ++ ·)^[n] p) ps qs →
      discover t dir qs = discover t dir ps) ∧
    (behindRoot dir ≠ "" → ∃ lead, List.Forall₂ Step.LeadsTo lead (names dir) ∧
      ∀ p, (steps (patternIn dir p)).toOption = (ownSteps p).toOption.map (lead ++ ·)) := by
  refine ⟨fun e => discover_eq_error_iff, fun p e => filesMatching_malformed_iff,
    fun p f => filesMatching_io_iff, fun p matched f h => (lies_of_matchingPaths h).2 f,
    fun p l => filesMatching_eq_ok_iff, discover_eq t dir ps, fun found h => ⟨?_, ?_, ?_, ?_⟩, ?_, ?_,
    exists_leadingSteps⟩
  · obtain ⟨ls, -, rfl⟩ := exists_of_discover h
    exact nodup_distinct _
  · exact exists_mem_discover_iff h
  · exact fun qs later hl => prefix_discover h hl
  · intro q hq
    obtain ⟨p, -, paths, hpaths, hqp⟩ := mem_paths_of_discover h hq
    exact (lies_of_matchingPaths hpaths).1 q (List.mem_map_of_mem hqp)
  · exact fun p hp qs => discover_again hp qs
  · intro qs h
    refine (discover_congr (h.imp ?_)).symm
    rintro p _ ⟨n, rfl⟩
    exact (patternIn_fromHere dir p n).symm

def nested : FileTree :=
  (((FileTree.empty.enter "/w").addFile "d/x.graphql" .empty).addFile "/e/y.graphql" .empty).add
    "f/l.graphql" (.link "/e/../w/d/x.graphql")

def overlapping : List String := ["*.graphql", "./x.graphql", "../f"]

theorem discover_nested :
    ∃ found later, discover nested "/w/d" overlapping = .ok found ∧ found = ["/w/d/x.graphql"] ∧
      (found.map components).Nodup ∧
      (∀ q ∈ found, isAbsolute q = true ∧ trail "/w/d" <+: trail q) ∧
      discover nested "/w/d" (overlapping ++ ["../f/*", "../../e/**/*.graphql"]) = .ok later ∧
      later = ["/w/d/x.graphql", "/w/d/../f/l.graphql", "/w/d/../../e/y.graphql"] ∧
      found <+: later ∧
      discover nested "/w/d" (overlapping ++ ["*.graphql"]) = .ok found ∧
      discover nested "/w/d" ["././*.graphql", "./x.graphql", "./../f"] = .ok found ∧
      (∃ e, discover nested "/w/d" ["*.graphql", "["] = .error (.malformed e)) ∧
      ∃ s : Step, s.accepts "d[ef]".toList = true ∧ ¬ s.accepts "de".toList = true := by
  have hdecided :
      (discover nested "/w/d" overlapping).toOption = some ["/w/d/x.graphql"] ∧
      (discover nested "/w/d" (overlapping ++ ["../f/*", "../../e/**/*.graphql"])).toOption =
        some ["/w/d/x.graphql", "/w/d/../f/l.graphql", "/w/d/../../e/y.graphql"] ∧
      (filesMatching nested "/w/d" "*.graphql").isOk = true ∧
      (steps (patternIn "/w/d" "[")).toOption = none := by
    decide +kernel
  obtain ⟨hone, hthree, hok, hmalformed⟩ := hdecided
  have hfound := eq_ok_of_toOption hone
  have hlater := eq_ok_of_toOption hthree
  obtain ⟨-, -, -, -, -, -, hall, hagain, hdots, -⟩ := discover_orderedUnion nested "/w/d" overlapping
  obtain ⟨hnodup, -, hprefix, hbelow⟩ := hall _ hfound
  have hbelow := fun q hq => (hbelow q hq).imp_left fun hroot => hroot (by decide)
  have hrepeated := hagain "*.graphql" List.mem_cons_self []
  rw [List.append_nil] at hrepeated
  have hdotted : List.Forall₂ (fun p q => ∃ n, q = ("./" ++ ·)^[n] p) overlapping
      ["././*.graphql", "./x.graphql", "./../f"] :=
    .cons ⟨2, rfl⟩ (.cons ⟨0, rfl⟩ (.cons ⟨1, rfl⟩ .nil))
  obtain ⟨e, herror⟩ : ∃ e, steps (patternIn "/w/d" "[") = .error e := by
    cases hs : steps (patternIn "/w/d" "[") with
    | error e => exact ⟨e, rfl⟩
    | ok ss =>
      rw [hs] at hmalformed
      cases hmalformed
  obtain ⟨hfails, hfault, -⟩ := discover_orderedUnion nested "/w/d" ["*.graphql", "["]
  have hfirst : FirstFailure (filesMatching nested "/w/d") ["*.graphql", "["] (.malformed e) :=
    ⟨["*.graphql"], "[", [], rfl, List.forall_mem_singleton.2 (exists_of_isOk hok),
      (hfault "[" e).2 herror⟩
  obtain ⟨-, -, -, -, -, -, -, -, -, hlead⟩ := discover_orderedUnion nested "d[ef]" overlapping
  obtain ⟨lead, hsteps, -⟩ := hlead (by decide)
  obtain ⟨s, -, hs, -⟩ := List.forall₂_cons_right_iff.1 hsteps
  exact ⟨_, _, hfound, rfl, hnodup, hbelow, hlater, rfl, hprefix _ _ hlater,
    hrepeated.trans hfound, (hdots _ hdotted).trans hfound, ⟨e, (hfails _).2 hfirst⟩, s,
    (hs _).2 (by decide), mt (hs _).1 (by decide)⟩

def locked : FileTree :=
  FileTree.empty.add "/d" (.directory ⟨false, true⟩)

/-- A pattern may be right and yet come to a directory that cannot be listed. -/
theorem locked_refused :
    ¬ ∀ (t : FileTree) (dir : String) (ps : List String),
      ((∃ e, discover t dir ps = .error (.malformed e)) ↔
        ∃ p ∈ ps, ∃ e, steps (patternIn dir p) = .error e) ∧
      ((¬ ∃ p ∈ ps, ∃ e, steps (patternIn dir p) = .error e) →
        ∃ found, discover t dir ps = .ok found) := by
  intro h
  have hdecided : discover locked "/d" ["*"] = .error (.io .denied) ∧
      (steps (patternIn "/d" "*")).isOk = true := by
    decide +kernel
  obtain ⟨hdenied, hok⟩ := hdecided
  obtain ⟨ss, hss⟩ := exists_of_isOk hok
  obtain ⟨found, hfound⟩ := (h locked "/d" ["*"]).2 <| by
    rintro ⟨p, hp, e, he⟩
    rw [List.mem_singleton.1 hp, hss] at he
    cases he
  rw [hdenied] at hfound
  cases hfound

end SchemaTypings.Files
