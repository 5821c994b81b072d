import Mathlib.Data.List.Forall2
import SchemaTypings.Proofs.EscapedPaths

namespace SchemaTypings.Files

/-- The names along a path, with `..` among them, but no empty parts and no dots. -/
def trail (path : String) : List String :=
  (parts path).filter fun p => p ≠ "" ∧ p ≠ "."

def Step.LeadsTo (s : Step) (n : String) : Prop :=
  ∀ m : List Char, s.accepts m = true ↔ m = n.toList

/-- What is found lies below some names, from the root or from here. A directory that cannot be
listed may also lie on the way to them. -/
def LiesAlong (t : FileTree) (absolute : Bool) (names : List String) : Found → Prop
  | .ok q => isAbsolute q.path = absolute ∧ names <+: trail q.path
  | .error f => ∃ q, isAbsolute q = absolute ∧ t.list q = .error f ∧
    (names <+: trail q ∨ trail q <+: names)

section Trails

variable {p n : String}

theorem trail_of_slash {path : String} {l r : List Char} (h : path.toList = l ++ '/' :: r) :
    trail path = trail (String.ofList l) ++ trail (String.ofList r) := by
  simp only [trail, parts, h, String.toList_ofList, splitSlashes_append_slash, List.map_append,
    List.filter_append]

theorem trail_eq_trail_stem (path : String) : trail path = trail (String.ofList (stem path)) := by
  by_cases hne : path = ""
  · subst hne
    rfl
  · obtain ⟨d, c, hd⟩ := exists_toList_eq_concat hne
    by_cases hc : c = '/'
    · subst hc
      rw [trail_of_slash hd, stem_of_slash hd]
      exact List.append_nil _
    · rw [stem_of_ne hd hc, ← hd, String.ofList_toList]

theorem trail_behindRoot (path : String) : trail (behindRoot path) = trail path := by
  cases h : isAbsolute path with
  | true =>
    obtain ⟨d, hd⟩ := exists_of_isAbsolute h
    rw [behindRoot_of_isAbsolute hd, trail_of_slash (l := []) hd]
    rfl
  | false => rw [behindRoot_of_not h]

theorem toList_join (p n : String) : (join p n).toList = stem p ++ '/' :: n.toList := by
  rw [join]
  split
  · next h =>
    obtain ⟨d, hd⟩ := List.getLast?_eq_some_iff.1 h
    rw [stem_of_slash hd, String.toList_append, hd, List.append_assoc, List.singleton_append]
  · next h =>
    rw [stem, if_neg h]
    simp

theorem join_ne (p n : String) : join p n ≠ "" := by
  rw [Ne, ← String.toList_eq_nil_iff, toList_join]
  simp

theorem trail_join (p n : String) : trail (join p n) = trail p ++ trail n := by
  rw [trail_of_slash (toList_join p n), ← trail_eq_trail_stem, String.ofList_toList]

theorem isAbsolute_join (h : p ≠ "") (n : String) : isAbsolute (join p n) = isAbsolute p := by
  rw [isAbsolute, isAbsolute, toList_join]
  obtain hp | hp := toList_eq_stem h
  · cases hs : stem p with
    | nil => exact absurd (String.toList_eq_nil_iff.1 (hp.trans hs)) h
    | cons c d => rw [hp, hs]; rfl
  · rw [hp]
    cases stem p <;> rfl

theorem not_isAbsolute_of_isHere (h : isHere p = true) : isAbsolute p = false := by
  rw [Bool.eq_false_iff]
  intro habsolute
  obtain ⟨d, hd⟩ := exists_of_isAbsolute habsolute
  have hc : components p = ["."] := eq_of_beq h
  rw [components, parts, hd] at hc
  change (if (splitSlashes d).map String.ofList = [] then [] else _) = _ at hc
  split at hc
  · cases hc
  · exact absurd (List.cons.inj hc).1 (by decide)

theorem trail_of_isHere (h : isHere p = true) : trail p = [] := by
  have hc : components p = ["."] := eq_of_beq h
  unfold components at hc
  rw [trail]
  cases hp : parts p with
  | nil => rfl
  | cons a r =>
    rw [hp] at hc
    by_cases ha : a = ""
    · simp only [ha, ↓reduceIte] at hc
      split at hc
      · cases hc
      · exact absurd (List.cons.inj hc).1 (by decide)
    · simp only [ha, ↓reduceIte] at hc
      obtain ⟨rfl, hr⟩ := List.cons.inj hc
      rw [List.filter_cons_of_neg (by decide), hr]

theorem trail_inside (p n : String) : trail (inside p n) = trail p ++ trail n := by
  rw [inside]
  split
  · next h => rw [trail_of_isHere h, List.nil_append]
  · exact trail_join p n

theorem isAbsolute_inside (hp : p ≠ "") (hn : isAbsolute n = false) :
    isAbsolute (inside p n) = isAbsolute p := by
  rw [inside]
  split
  · next h => rw [hn, not_isAbsolute_of_isHere h]
  · exact isAbsolute_join hp n

theorem inside_ne (h : n ≠ "") (p : String) : inside p n ≠ "" := by
  rw [inside]
  split
  · exact h
  · exact join_ne p n

theorem not_isAbsolute_of_noSlash (h : '/' ∉ n.toList) : isAbsolute n = false := by
  rw [Bool.eq_false_iff]
  intro habsolute
  obtain ⟨d, hd⟩ := exists_of_isAbsolute habsolute
  exact h (hd ▸ List.mem_cons_self)

theorem IsName.not_isAbsolute (h : IsName n) : isAbsolute n = false := by
  obtain ⟨-, -, -, hslash, -⟩ := h
  exact not_isAbsolute_of_noSlash hslash

end Trails

section Steps

variable {pattern : String} {ss : List Step} {n : List Char}

theorem eq_of_literal? {i : Nat} {previous : Option Char} {s : List Char} {ws : List Wildcard}
    (h : wildcardsFrom i previous s = .ok ws) (hn : literal? ws = some n) : n = s := by
  fun_induction wildcardsFrom i previous s generalizing ws n with
  | case1 =>
    obtain rfl := Except.ok.inj h
    exact (Option.some.inj hn).symm
  | case13 _ _ c r _ _ _ _ _ _ ih =>
    obtain ⟨ws, hws, rfl⟩ := map_eq_ok_iff.1 h
    obtain ⟨m, hm, rfl⟩ := Option.map_eq_some_iff.1 hn
    rw [ih hws hm]
  | case4 =>
    obtain rfl := Except.ok.inj h
    cases hn
  | case3 | case6 | case7 | case9 | case11 => cases h
  | case2 | case5 | case8 | case10 | case12 =>
    obtain ⟨ws, -, rfl⟩ := map_eq_ok_iff.1 h
    cases hn

theorem noSlash_of_mem_partsBeforeEnd {path part : String} (h : part ∈ partsBeforeEnd path) :
    '/' ∉ part.toList := by
  have hpart : part ∈ parts path := by
    rw [partsBeforeEnd] at h
    split at h
    · exact List.dropLast_subset _ h
    · exact h
  obtain ⟨l, hl, rfl⟩ := List.mem_map.1 hpart
  rw [String.toList_ofList]
  exact noSlash_of_mem_splitSlashes hl

/-- The entries that the steps of a pattern ask for have no slash in front. -/
theorem not_isAbsolute_of_mem_steps (h : steps pattern = .ok ss) (hn : .entry n ∈ ss) :
    isAbsolute (String.ofList n) = false := by
  rw [steps] at h
  cases hw : wildcards pattern with
  | error e =>
    rw [hw] at h
    cases h
  | ok ws =>
    rw [hw] at h
    cases hps : (partsBeforeEnd (behindRoot pattern)).mapM wildcards with
    | error e =>
      simp only [hps] at h
      cases h
    | ok ps =>
      simp only [hps] at h
      obtain rfl := Except.ok.inj h
      split at hn
      · obtain rfl := Step.entry.inj (List.mem_singleton.1 hn)
        rfl
      · obtain ⟨ws, hws, hstep⟩ := List.mem_map.1 hn
        obtain ⟨part, hpart, hread⟩ := (mem_of_mapM hps).1 hws
        rw [Step.ofWildcards] at hstep
        split at hstep
        · next m hm =>
          obtain rfl := Step.entry.inj hstep
          rw [eq_of_literal? hread hm, String.ofList_toList]
          exact not_isAbsolute_of_noSlash (noSlash_of_mem_partsBeforeEnd hpart)
        · split at hstep <;> cases hstep

end Steps

section Walks

variable {t : FileTree} {absolute : Bool} {names more : List String} {x : Found} {p : Place}
  {visit : Place → List Found} {ss : List Step}

theorem LiesAlong.shorten (h : LiesAlong t absolute (names ++ more) x) :
    LiesAlong t absolute names x := by
  have hfront : names <+: names ++ more := List.prefix_append names more
  cases x with
  | ok q => exact ⟨h.1, hfront.trans h.2⟩
  | error f =>
    obtain ⟨q, hroot, hlist, hq | hq⟩ := h
    · exact ⟨q, hroot, hlist, .inl (hfront.trans hq)⟩
    · exact ⟨q, hroot, hlist, List.prefix_or_prefix_of_prefix hfront hq⟩

theorem liesAlong_of_list {path : String} {f : ReadFault} (h : t.list path = .error f) :
    LiesAlong t (isAbsolute path) (trail path) (.error f) :=
  ⟨path, rfl, h, .inl List.prefix_rfl⟩

theorem LiesAlong.of_inside {n : String} (hp : p.path ≠ "") (hn : isAbsolute n = false)
    (h : LiesAlong t (isAbsolute (inside p.path n)) (trail (inside p.path n)) x) :
    LiesAlong t (isAbsolute p.path) (trail p.path) x := by
  rw [isAbsolute_inside hp hn, trail_inside] at h
  exact h.shorten

theorem LiesAlong.of_join {n : String} (hp : p.path ≠ "")
    (h : LiesAlong t (isAbsolute (join p.path n)) (trail (join p.path n)) x) :
    LiesAlong t (isAbsolute p.path) (trail p.path) x := by
  rw [isAbsolute_join hp, trail_join] at h
  exact h.shorten

theorem liesAlong_everywhere
    (hvisit : ∀ q, q.path ≠ "" → ∀ x ∈ visit q, LiesAlong t (isAbsolute q.path) (trail q.path) x)
    (hp : p.path ≠ "") (h : x ∈ t.everywhere visit p) :
    LiesAlong t (isAbsolute p.path) (trail p.path) x := by
  induction p using FileTree.everywhere.induct t with
  | case1 p ih =>
    rw [FileTree.everywhere] at h
    obtain h | h := List.mem_append.1 h
    · exact hvisit p hp x h
    · split at h
      · split at h
        · next f hlist =>
          obtain rfl := List.mem_singleton.1 h
          exact liesAlong_of_list hlist
        · next es hlist =>
          obtain ⟨⟨e, he⟩, -, h⟩ := List.mem_flatMap.1 h
          have hx := ih es hlist e he (by rw [FileTree.path_placeOf]; exact join_ne p.path e.1) h
          rw [FileTree.path_placeOf] at hx
          exact hx.of_join hp
      · exact absurd h List.not_mem_nil

theorem liesAlong_below
    (hvisit : ∀ q, q.path ≠ "" → ∀ x ∈ visit q, LiesAlong t (isAbsolute q.path) (trail q.path) x)
    (hp : p.path ≠ "") (h : x ∈ t.below visit p) :
    LiesAlong t (isAbsolute p.path) (trail p.path) x := by
  rw [FileTree.below] at h
  split at h
  · split at h
    · next f hlist =>
      obtain rfl := List.mem_singleton.1 h
      exact liesAlong_of_list hlist
    · next es hlist =>
      obtain ⟨e, he, h⟩ := List.mem_flatMap.1 h
      obtain ⟨-, hnames⟩ := FileTree.list_eq_ok hlist
      have hname := hnames e he
      have hx := liesAlong_everywhere hvisit
        (by rw [FileTree.path_placeOf]; exact inside_ne hname.1 _) h
      rw [FileTree.path_placeOf] at hx
      exact hx.of_inside hp hname.not_isAbsolute
  · exact absurd h List.not_mem_nil

theorem ne_of_hasEntry {n : String} (h : t.hasEntry p n = true) : inside p.path n ≠ "" := by
  rw [FileTree.hasEntry] at h
  split at h
  · next hdots =>
    refine inside_ne ?_ p.path
    rintro rfl
    revert hdots
    decide
  · intro hempty
    rw [hempty] at h
    cases h

/-- Walking leads downwards, or to names above that are written behind the path. -/
theorem liesAlong_walk (hss : ∀ n, .entry n ∈ ss → isAbsolute (String.ofList n) = false)
    (hp : p.path ≠ "") (h : x ∈ walk t ss p) :
    LiesAlong t (isAbsolute p.path) (trail p.path) x := by
  fun_induction walk t ss p generalizing x with
  | case1 p =>
    obtain rfl := List.mem_singleton.1 h
    exact ⟨rfl, List.prefix_rfl⟩
  | case2 n ss p hthere ih =>
    have hx := ih (fun k hk => hss k (List.mem_cons_of_mem _ hk)) (ne_of_hasEntry hthere) h
    exact hx.of_inside hp (hss n List.mem_cons_self)
  | case4 p =>
    refine liesAlong_below (fun q _ x hx => ?_) hp h
    split at hx
    · obtain rfl := List.mem_singleton.1 hx
      exact ⟨rfl, List.prefix_rfl⟩
    · exact absurd hx List.not_mem_nil
  | case5 ss p ih => exact ih (fun k hk => hss k (List.mem_cons_of_mem _ hk)) hp h
  | case6 s ss p _ ih =>
    refine liesAlong_below (fun q hq x hx => ?_) hp h
    split at hx
    · exact ih q (fun k hk => hss k (List.mem_cons_of_mem _ (List.mem_cons_of_mem _ hk))) hq hx
    · exact absurd hx List.not_mem_nil
  | case7 ws ss p _ f hlist =>
    obtain rfl := List.mem_singleton.1 h
    exact liesAlong_of_list hlist
  | case8 ws ss p _ es hlist ihdots ihnames =>
    have hrest := fun k hk => hss k (List.mem_cons_of_mem _ hk)
    obtain h | h := List.mem_append.1 h
    · obtain ⟨d, -, h⟩ := List.mem_flatMap.1 h
      exact (ihdots d hrest (join_ne p.path d) h).of_join hp
    · obtain ⟨e, he, h⟩ := List.mem_flatMap.1 h
      have hname := (FileTree.list_eq_ok hlist).2 e he
      have hne := inside_ne hname.1 p.path
      split at h
      · have hx := ihnames e hrest (by rwa [FileTree.path_placeOf]) h
        rw [FileTree.path_placeOf] at hx
        exact hx.of_inside hp hname.not_isAbsolute
      · exact absurd h List.not_mem_nil
  | case3 | case9 => exact absurd h List.not_mem_nil

theorem matchesName_of_mem_matchingDots {ws : List Wildcard} {d : String}
    (h : d ∈ matchingDots ws) : matchesName ws d.toList = true := by
  rw [matchingDots] at h
  split at h
  · exact (List.mem_filter.1 h).2
  · exact absurd h List.not_mem_nil

/-- A walk along a step that accepts one name goes on behind that name, if the names here can be
listed where that is needed. -/
theorem Step.LeadsTo.exists_of_mem_walk {s : Step} {n : String} (hs : s.LeadsTo n)
    (hn : isAbsolute n = false) (hp : p.path ≠ "") (h : x ∈ walk t (s :: ss) p) :
    (∃ f, x = .error f ∧ t.list p.path = .error f) ∨
      ∃ q : Place, q.path ≠ "" ∧ x ∈ walk t ss q ∧ isAbsolute q.path = isAbsolute p.path ∧
        trail q.path = trail p.path ++ trail n := by
  have hinside : inside p.path n ≠ "" → isAbsolute (inside p.path n) = isAbsolute p.path ∧
      trail (inside p.path n) = trail p.path ++ trail n := fun _ =>
    ⟨isAbsolute_inside hp hn, trail_inside p.path n⟩
  cases s with
  | entry m =>
    have hm : String.ofList m = n := by
      rw [(hs m).1 (beq_self_eq_true m), String.ofList_toList]
    rw [walk, hm] at h
    split at h
    · next hthere =>
      have hq := ne_of_hasEntry hthere
      exact .inr ⟨t.placeAt (inside p.path n), hq, h, hinside hq⟩
    · exact absurd h List.not_mem_nil
  | anywhere =>
    have hx : 'x' :: n.toList = n.toList := (hs ('x' :: n.toList)).1 rfl
    exact absurd (congrArg List.length hx) (by simp)
  | matching ws =>
    have hname : ∀ m : String, matchesName ws m.toList = true → m = n := fun m hm =>
      String.toList_inj.1 ((hs m.toList).1 hm)
    rw [walk] at h
    split at h
    · split at h
      · next f hlist => exact .inl ⟨f, List.mem_singleton.1 h, hlist⟩
      · next es hlist =>
        obtain h | h := List.mem_append.1 h
        · obtain ⟨d, hd, h⟩ := List.mem_flatMap.1 h
          obtain rfl := hname d (matchesName_of_mem_matchingDots hd)
          exact .inr ⟨_, join_ne p.path d, h, isAbsolute_join hp d, trail_join p.path d⟩
        · obtain ⟨e, he, h⟩ := List.mem_flatMap.1 h
          split at h
          · next hm =>
            have hq := inside_ne ((FileTree.list_eq_ok hlist).2 e he).1 p.path
            obtain rfl := hname e.1 hm
            refine .inr ⟨_, ?_, h, ?_⟩
            · rwa [FileTree.path_placeOf]
            · rw [FileTree.path_placeOf]
              exact hinside hq
          · exact absurd h List.not_mem_nil
    · exact absurd h List.not_mem_nil

theorem liesAlong_walk_lead {lead : List Step} {ns : List String}
    (hss : ∀ n, .entry n ∈ ss → isAbsolute (String.ofList n) = false)
    (hl : List.Forall₂ Step.LeadsTo lead ns) (hns : ∀ n ∈ ns, isAbsolute n = false)
    (hp : p.path ≠ "") (h : x ∈ walk t (lead ++ ss) p) :
    LiesAlong t (isAbsolute p.path) (trail p.path ++ ns.flatMap trail) x := by
  induction hl generalizing p with
  | nil =>
    rw [List.flatMap_nil, List.append_nil]
    exact liesAlong_walk hss hp h
  | cons hs _ ih =>
    obtain ⟨hn, hns⟩ := List.forall_mem_cons.1 hns
    obtain ⟨f, rfl, hlist⟩ | ⟨q, hq, hx, hroot, htrail⟩ := hs.exists_of_mem_walk hn hp h
    · exact ⟨p.path, rfl, hlist, .inr (List.prefix_append _ _)⟩
    · rw [List.flatMap_cons, ← List.append_assoc, ← htrail, ← hroot]
      exact ih hns hq hx

end Walks

end SchemaTypings.Files
