import SchemaTypings.Files.Search
import SchemaTypings.Proofs.Outcomes

namespace SchemaTypings.Files

section Reading

variable {c : Char} {r : List Char}

theorem wildcardsFrom_negated (i : Nat) (previous : Option Char) (r : List Char) :
    wildcardsFrom i previous ('[' :: '!' :: r) =
      (closeBracket r).elim (.error ⟨i, .openBracket⟩) fun x =>
        (wildcardsFrom (i + x.1.length + 3) (some ']') x.2).map (.oneOf true (spans x.1) :: ·) := by
  rw [wildcardsFrom]
  split
  · next h => rw [h, Option.elim_none]
  · next h => rw [h, Option.elim_some]

theorem wildcardsFrom_bracket (hr : ∀ r', r = '!' :: r' → False) (i : Nat)
    (previous : Option Char) :
    wildcardsFrom i previous ('[' :: r) =
      (closeBracket r).elim (.error ⟨i, .openBracket⟩) fun x =>
        (wildcardsFrom (i + x.1.length + 2) (some ']') x.2).map (.oneOf false (spans x.1) :: ·) := by
  rw [wildcardsFrom]
  · split
    · next h => rw [h, Option.elim_none]
    · next h => rw [h, Option.elim_some]
  · exact hr

theorem wildcardsFrom_plain (h : ¬ (c = '?' ∨ c = '*' ∨ c = '[')) (i : Nat)
    (previous : Option Char) (r : List Char) :
    wildcardsFrom i previous (c :: r) =
      (wildcardsFrom (i + 1) (some c) r).map (.char c :: ·) := by
  obtain ⟨hq, hs, hb⟩ := not_or.1 h |>.imp_right not_or.1
  rw [wildcardsFrom]
  all_goals simp_all

/-- Two stars stand behind a slash or at the beginning. -/
theorem wildcardsFrom_stars_of_ne {previous : Option Char}
    (h : ¬ (previous = none ∨ previous = some '/')) (hr : ∀ r', r = '*' :: r' → False) (i : Nat) :
    wildcardsFrom i previous ('*' :: '*' :: r) = .error ⟨i - 1, .brokenRecursion⟩ := by
  match r with
  | [] => rw [wildcardsFrom, if_neg h]
  | c :: r =>
    by_cases hc : c = '/'
    · subst hc
      rw [wildcardsFrom, if_neg h]
    · rw [wildcardsFrom, if_neg h]
      · exact hr
      · exact List.cons_ne_nil c r
      · exact fun r' he => hc (List.cons.inj he).1

/-- Where a pattern begins matters for its errors only; and what comes before it, if that is not a
slash. -/
theorem toOption_wildcardsFrom {previous previous' : Option Char}
    (h : (previous = none ∨ previous = some '/') ↔ (previous' = none ∨ previous' = some '/'))
    (i j : Nat) (s : List Char) :
    (wildcardsFrom i previous s).toOption = (wildcardsFrom j previous' s).toOption := by
  fun_induction wildcardsFrom i previous s generalizing j previous' with
  | case1 => rw [wildcardsFrom]
  | case2 _ _ r ih => rw [wildcardsFrom, toOption_map, toOption_map, ih Iff.rfl]
  | case3 =>
    rw [wildcardsFrom]
    rfl
  | case4 _ _ hp => rw [wildcardsFrom, if_pos (h.1 hp)]
  | case5 _ _ hp r _ ih =>
    rw [wildcardsFrom, if_pos (h.1 hp), toOption_map, toOption_map, ih Iff.rfl]
  | case6 _ _ r hr hp hnil hslash =>
    rw [wildcardsFrom.eq_6 j previous' r hr hnil hslash, if_pos (h.1 hp)]
    rfl
  | case7 _ _ r hr hp =>
    rw [wildcardsFrom_stars_of_ne (mt h.2 hp) hr]
    rfl
  | case8 _ _ r hstars hstar ih =>
    rw [wildcardsFrom.eq_7 j previous' r hstars hstar, toOption_map, toOption_map, ih Iff.rfl]
  | case9 _ _ r hclose =>
    rw [wildcardsFrom_negated, hclose]
    rfl
  | case10 _ _ r inner rest hclose ih =>
    rw [wildcardsFrom_negated, hclose, Option.elim_some, toOption_map, toOption_map, ih Iff.rfl]
  | case11 _ _ r hr hclose =>
    rw [wildcardsFrom_bracket hr, hclose]
    rfl
  | case12 _ _ r hr inner rest hclose ih =>
    rw [wildcardsFrom_bracket hr, hclose, Option.elim_some, toOption_map, toOption_map, ih Iff.rfl]
  | case13 _ _ c r hq _ _ hs _ hb ih =>
    have hplain : ¬ (c = '?' ∨ c = '*' ∨ c = '[') := by
      rintro (rfl | rfl | rfl)
      · exact hq rfl
      · exact hs rfl
      · exact hb rfl
    rw [wildcardsFrom_plain hplain, toOption_map, toOption_map, ih Iff.rfl]

end Reading

def escapeChar (c : Char) : List Char :=
  if c = '?' ∨ c = '*' ∨ c = '[' ∨ c = ']' then ['[', c, ']'] else [c]

theorem toList_escapePattern (path : String) :
    (escapePattern path).toList = path.toList.flatMap escapeChar :=
  String.toList_ofList

def literalWildcard (c : Char) : Wildcard :=
  if c = '?' ∨ c = '*' ∨ c = '[' ∨ c = ']' then .oneOf false [(c, c)] else .char c

theorem wildcardsFrom_escapeChar (c : Char) (i : Nat) (previous : Option Char) (r : List Char) :
    ∃ j previous', wildcardsFrom i previous (escapeChar c ++ r) =
      (wildcardsFrom j previous' r).map (literalWildcard c :: ·) := by
  by_cases h : c = '?' ∨ c = '*' ∨ c = '[' ∨ c = ']'
  · have hr : ∀ r', c :: ']' :: r = '!' :: r' → False := by
      intro r' he
      obtain ⟨rfl, -⟩ := List.cons.inj he
      revert h
      decide
    have hclose : closeBracket (c :: ']' :: r) = some ([c], r) := by simp [closeBracket]
    refine ⟨i + 3, some ']', ?_⟩
    rw [escapeChar, literalWildcard, if_pos h, if_pos h]
    exact (wildcardsFrom_bracket hr i previous).trans (by rw [hclose]; rfl)
  · have hplain : ¬ (c = '?' ∨ c = '*' ∨ c = '[') :=
      mt (Or.imp_right (Or.imp_right Or.inl)) h
    refine ⟨i + 1, some c, ?_⟩
    rw [escapeChar, literalWildcard, if_neg h, if_neg h]
    exact wildcardsFrom_plain hplain i previous r

/-- An escaped text is read character by character, up to the slash behind it. -/
theorem wildcardsFrom_escaped_slash (n : List Char) (i : Nat) (previous : Option Char)
    (r : List Char) :
    ∃ j, wildcardsFrom i previous (n.flatMap escapeChar ++ '/' :: r) =
      (wildcardsFrom j (some '/') r).map fun ws => n.map literalWildcard ++ .char '/' :: ws := by
  induction n generalizing i previous with
  | nil => exact ⟨i + 1, wildcardsFrom_plain (by decide) i previous r⟩
  | cons c n ih =>
    obtain ⟨j, previous', hc⟩ :=
      wildcardsFrom_escapeChar c i previous (n.flatMap escapeChar ++ '/' :: r)
    obtain ⟨k, hn⟩ := ih j previous'
    refine ⟨k, ?_⟩
    rw [List.flatMap_cons, List.append_assoc, hc, hn]
    cases wildcardsFrom k (some '/') r <;> rfl

theorem wildcardsFrom_escaped (n : List Char) (i : Nat) (previous : Option Char) :
    wildcardsFrom i previous (n.flatMap escapeChar) = .ok (n.map literalWildcard) := by
  induction n generalizing i previous with
  | nil => rw [List.flatMap_nil, wildcardsFrom, List.map_nil]
  | cons c n ih =>
    obtain ⟨j, previous', hc⟩ := wildcardsFrom_escapeChar c i previous (n.flatMap escapeChar)
    rw [List.flatMap_cons, hc, ih]
    rfl

theorem accepts_literalWildcard (c d : Char) : (literalWildcard c).accepts d = true ↔ d = c := by
  rw [literalWildcard]
  split
  · have hspan : (Wildcard.oneOf false [(c, c)]).accepts d = true ↔ c ≤ d ∧ d ≤ c := by
      simp [Wildcard.accepts]
    rw [hspan]
    constructor
    · exact fun h => Char.le_antisymm h.2 h.1
    · rintro rfl
      exact ⟨Char.le_refl d, Char.le_refl d⟩
  · exact beq_iff_eq

theorem literalWildcard_ne (c : Char) :
    literalWildcard c ≠ .anyChars ∧ literalWildcard c ≠ .anyDirectories := by
  rw [literalWildcard]
  split <;> exact ⟨nofun, nofun⟩

theorem matchesName_cons_nil {w : Wildcard} (hc : w ≠ .anyChars) (hd : w ≠ .anyDirectories)
    (ws : List Wildcard) : matchesName (w :: ws) [] = false := by
  cases w with
  | anyChars => exact absurd rfl hc
  | anyDirectories => exact absurd rfl hd
  | char | anyChar | oneOf => rfl

theorem matchesName_literals (n m : List Char) :
    matchesName (n.map literalWildcard) m = true ↔ m = n := by
  induction n generalizing m with
  | nil => rw [List.map_nil, matchesName_nil, List.isEmpty_iff]
  | cons c n ih =>
    obtain ⟨hc, hd⟩ := literalWildcard_ne c
    cases m with
    | nil =>
      rw [List.map_cons, matchesName_cons_nil hc hd]
      exact iff_of_false Bool.false_ne_true (List.cons_ne_nil c n).symm
    | cons d m =>
      rw [List.map_cons, matchesName_cons_cons hc hd, Bool.and_eq_true, accepts_literalWildcard, ih,
        List.cons_eq_cons]

theorem literal?_literals (n m : List Char) (h : literal? (n.map literalWildcard) = some m) :
    m = n := by
  induction n generalizing m with
  | nil => exact (Option.some.inj h).symm
  | cons c n ih =>
    rw [List.map_cons, literalWildcard] at h
    split at h
    · cases h
    · obtain ⟨k, hk, rfl⟩ := Option.map_eq_some_iff.1 h
      rw [ih k hk]

def Step.named (n : List Char) : Step :=
  .ofWildcards (n.map literalWildcard)

theorem Step.accepts_named (n m : List Char) : (named n).accepts m = true ↔ m = n := by
  rw [named, ofWildcards]
  cases h : literal? (n.map literalWildcard) with
  | some k =>
    rw [literal?_literals n k h]
    exact beq_iff_eq
  | none =>
    have hnot : (n.map literalWildcard).contains .anyDirectories = false := by
      simpa using fun c _ => (literalWildcard_ne c).2
    simp only [hnot]
    exact matchesName_literals n m

section Parts

variable {c : Char} {l r p : List Char} {ps : List (List Char)}

theorem splitSlashes_ne_nil (l : List Char) : splitSlashes l ≠ [] := by
  fun_cases splitSlashes l <;> exact List.cons_ne_nil _ _

theorem splitSlashes_cons (hc : c ≠ '/') (h : splitSlashes l = p :: ps) :
    splitSlashes (c :: l) = (c :: p) :: ps := by
  rw [splitSlashes, h]
  exact hc

theorem splitSlashes_append_slash (l r : List Char) :
    splitSlashes (l ++ '/' :: r) = splitSlashes l ++ splitSlashes r := by
  induction l with
  | nil => rfl
  | cons c l ih =>
    by_cases hc : c = '/'
    · subst hc
      exact congrArg ([] :: ·) ih
    · obtain ⟨p, ps, hl⟩ := List.exists_cons_of_ne_nil (splitSlashes_ne_nil l)
      rw [hl, List.cons_append] at ih
      rw [List.cons_append, splitSlashes_cons hc ih, splitSlashes_cons hc hl, List.cons_append]

theorem splitSlashes_append {s : List Char} (hs : '/' ∉ s) (h : splitSlashes l = p :: ps) :
    splitSlashes (s ++ l) = (s ++ p) :: ps := by
  induction s with
  | nil => exact h
  | cons c s ih =>
    obtain ⟨hc, hs⟩ := not_or.1 (mt List.mem_cons.2 hs)
    exact splitSlashes_cons (Ne.symm hc) (ih hs)

theorem splitSlashes_of_noSlash (h : '/' ∉ l) : splitSlashes l = [l] := by
  have hnil : splitSlashes [] = [] :: [] := rfl
  simpa using splitSlashes_append h hnil

theorem noSlash_of_mem_splitSlashes (h : p ∈ splitSlashes l) : '/' ∉ p := by
  induction l generalizing p with
  | nil =>
    obtain rfl := List.mem_singleton.1 h
    exact List.not_mem_nil
  | cons c l ih =>
    by_cases hc : c = '/'
    · subst hc
      obtain rfl | h := List.mem_cons.1 h
      · exact List.not_mem_nil
      · exact ih h
    · obtain ⟨q, qs, hl⟩ := List.exists_cons_of_ne_nil (splitSlashes_ne_nil l)
      rw [splitSlashes_cons hc hl] at h
      rw [hl] at ih
      obtain rfl | h := List.mem_cons.1 h
      · intro hm
        obtain he | hm := List.mem_cons.1 hm
        · exact hc he.symm
        · exact ih List.mem_cons_self hm
      · exact ih (List.mem_cons_of_mem q h)

theorem noSlash_escapeChar (hc : c ≠ '/') : '/' ∉ escapeChar c := by
  rw [escapeChar]
  split <;> simp [Ne.symm hc]

theorem splitSlashes_escaped (l : List Char) :
    splitSlashes (l.flatMap escapeChar) =
      (splitSlashes l).map fun p => p.flatMap escapeChar := by
  induction l with
  | nil => rfl
  | cons c l ih =>
    by_cases hc : c = '/'
    · subst hc
      exact congrArg ([] :: ·) ih
    · obtain ⟨p, ps, hl⟩ := List.exists_cons_of_ne_nil (splitSlashes_ne_nil l)
      rw [hl, List.map_cons] at ih
      rw [splitSlashes_cons hc hl, List.flatMap_cons, splitSlashes_append (noSlash_escapeChar hc) ih,
        List.map_cons, List.flatMap_cons]

theorem getLast?_splitSlashes_ne (hc : c ≠ '/') (l : List Char) :
    (splitSlashes (l ++ [c])).getLast? ≠ some [] := by
  induction l with
  | nil =>
    have hone : splitSlashes [c] = [[c]] := splitSlashes_cons hc rfl
    rw [List.nil_append, hone]
    exact fun h => List.cons_ne_nil c [] (Option.some.inj h)
  | cons b l ih =>
    obtain ⟨p, ps, hl⟩ := List.exists_cons_of_ne_nil (splitSlashes_ne_nil (l ++ [c]))
    rw [hl] at ih
    by_cases hb : b = '/'
    · subst hb
      have hcons : splitSlashes ('/' :: l ++ [c]) = [] :: p :: ps := congrArg ([] :: ·) hl
      rwa [hcons, List.getLast?_cons_cons]
    · rw [List.cons_append, splitSlashes_cons hb hl]
      cases ps with
      | nil => exact fun h => List.cons_ne_nil b p (Option.some.inj h)
      | cons q qs => rwa [List.getLast?_cons_cons] at ih ⊢

end Parts

def stem (path : String) : List Char :=
  if path.toList.getLast? = some '/' then path.toList.dropLast else path.toList

section Stems

variable {dir : String} {d : List Char} {c : Char}

theorem exists_toList_eq_concat (h : dir ≠ "") : ∃ d c, dir.toList = d ++ [c] := by
  obtain hnil | ⟨d, c, hd⟩ := List.eq_nil_or_concat dir.toList
  · exact absurd (String.toList_eq_nil_iff.1 hnil) h
  · exact ⟨d, c, hd.trans List.concat_eq_append⟩

theorem stem_of_slash (h : dir.toList = d ++ ['/']) : stem dir = d := by
  rw [stem, h, List.getLast?_concat, if_pos rfl, List.dropLast_concat]

theorem stem_of_ne (h : dir.toList = d ++ [c]) (hc : c ≠ '/') : stem dir = d ++ [c] := by
  rw [stem, h, List.getLast?_concat, if_neg (mt Option.some.inj hc)]

theorem getLast?_map_ofList (ls : List (List Char)) :
    (ls.map String.ofList).getLast? = some "" ↔ ls.getLast? = some [] := by
  rw [List.getLast?_map]
  cases ls.getLast? with
  | none => exact iff_of_false nofun nofun
  | some l => simp

theorem partsBeforeEnd_eq (h : dir ≠ "") :
    partsBeforeEnd dir = (splitSlashes (stem dir)).map String.ofList := by
  obtain ⟨d, c, hd⟩ := exists_toList_eq_concat h
  by_cases hc : c = '/'
  · subst hc
    have hparts : parts dir = (splitSlashes d).map String.ofList ++ [""] := by
      rw [parts, hd, splitSlashes_append_slash, List.map_append]
      rfl
    rw [partsBeforeEnd, hparts, List.getLast?_concat, if_pos rfl, List.dropLast_concat,
      stem_of_slash hd]
  · have hlast : (parts dir).getLast? ≠ some "" := by
      rw [parts, hd, Ne, getLast?_map_ofList]
      exact getLast?_splitSlashes_ne hc d
    rw [partsBeforeEnd, if_neg hlast, parts, stem_of_ne hd hc, hd]

theorem toList_eq_stem (h : dir ≠ "") :
    dir.toList = stem dir ∨ dir.toList = stem dir ++ ['/'] := by
  obtain ⟨d, c, hd⟩ := exists_toList_eq_concat h
  by_cases hc : c = '/'
  · subst hc
    exact .inr (stem_of_slash hd ▸ hd)
  · exact .inl (stem_of_ne hd hc ▸ hd)

theorem escapeChar_ne_nil (c : Char) : escapeChar c ≠ [] := by
  rw [escapeChar]
  split <;> exact List.cons_ne_nil _ _

theorem ne_slash_of_escaped (h : c = '?' ∨ c = '*' ∨ c = '[' ∨ c = ']') : c ≠ '/' := by
  rintro rfl
  revert h
  decide

theorem getLast?_escapeChar (l : List Char) (c : Char) :
    (l ++ escapeChar c).getLast? = some '/' ↔ c = '/' := by
  rw [escapeChar]
  split
  · next h => exact iff_of_false (by simp) (ne_slash_of_escaped h)
  · rw [List.getLast?_concat]
    exact Option.some_inj

theorem head?_escapeChar (c : Char) (r : List Char) :
    (escapeChar c ++ r).head? = some '/' ↔ c = '/' := by
  rw [escapeChar]
  split
  · next h => exact iff_of_false (by simp) (ne_slash_of_escaped h)
  · exact Option.some_inj

theorem toList_patternIn (h : dir ≠ "") (pattern : String) :
    (patternIn dir pattern).toList =
      (stem dir).flatMap escapeChar ++ '/' :: dropHere pattern.toList := by
  obtain ⟨d, c, hd⟩ := exists_toList_eq_concat h
  have hroot : (escapePattern dir).toList = d.flatMap escapeChar ++ escapeChar c := by
    rw [toList_escapePattern, hd, List.flatMap_append, List.flatMap_singleton]
  have hlast : (escapePattern dir).toList.getLast? = some '/' ↔ c = '/' := by
    rw [hroot, getLast?_escapeChar]
  have hne : ¬ (escapePattern dir).isEmpty = true := by
    rw [String.isEmpty_iff, ← String.toList_eq_nil_iff, hroot]
    exact fun hnil => escapeChar_ne_nil c (List.append_eq_nil_iff.1 hnil).2
  rw [patternIn, if_neg hne, join]
  by_cases hc : c = '/'
  · rw [if_pos (hlast.2 hc), String.toList_append, String.toList_ofList, hroot]
    subst hc
    rw [stem_of_slash hd, List.append_assoc]
    rfl
  · rw [if_neg (mt hlast.1 hc), stem_of_ne hd hc, List.flatMap_append, List.flatMap_singleton,
      ← hroot]
    simp

/-- Only a slash is escaped to what begins with one. -/
theorem isAbsolute_patternIn (h : dir ≠ "") (pattern : String) :
    isAbsolute (patternIn dir pattern) = isAbsolute dir := by
  rw [Bool.eq_iff_iff, isAbsolute, isAbsolute, beq_iff_eq, beq_iff_eq, toList_patternIn h]
  cases hs : stem dir with
  | nil =>
    obtain hd | hd := toList_eq_stem h
    · exact absurd (String.toList_eq_nil_iff.1 (hd.trans hs)) h
    · rw [hd, hs]
      exact Iff.rfl
  | cons c d =>
    rw [List.flatMap_cons, List.append_assoc, head?_escapeChar]
    obtain hd | hd := toList_eq_stem h
    all_goals
      rw [hd, hs]
      exact Option.some_inj.symm

theorem stem_slash {d : List Char} (h : dir.toList = '/' :: d) (hd : d ≠ []) :
    stem dir = '/' :: stem (String.ofList d) := by
  rw [stem, stem, h, String.toList_ofList, List.getLast?_cons_of_ne_nil hd,
    List.dropLast_cons_of_ne_nil hd]
  split <;> rfl

theorem behindRoot_of_isAbsolute {d : List Char} (h : dir.toList = '/' :: d) :
    behindRoot dir = String.ofList d := by
  have habsolute : isAbsolute dir = true := by
    rw [isAbsolute, h]
    rfl
  rw [behindRoot, if_pos habsolute, h, List.tail_cons]

theorem behindRoot_of_not (h : isAbsolute dir = false) : behindRoot dir = dir :=
  if_neg (Bool.eq_false_iff.1 h)

theorem exists_of_isAbsolute (h : isAbsolute dir = true) : ∃ d, dir.toList = '/' :: d := by
  rw [isAbsolute, beq_iff_eq] at h
  exact List.head?_eq_some_iff.1 h

theorem toList_behindRoot_patternIn (h : behindRoot dir ≠ "") (pattern : String) :
    (behindRoot (patternIn dir pattern)).toList =
      (stem (behindRoot dir)).flatMap escapeChar ++ '/' :: dropHere pattern.toList := by
  have hne : dir ≠ "" := by
    rintro rfl
    exact h rfl
  cases habsolute : isAbsolute dir with
  | true =>
    obtain ⟨d, hd⟩ := exists_of_isAbsolute habsolute
    have hbehind := behindRoot_of_isAbsolute hd
    rw [hbehind] at h ⊢
    have hstem := stem_slash hd (mt String.ofList_eq_empty_iff.2 h)
    have hpattern := toList_patternIn hne pattern
    rw [hstem] at hpattern
    rw [behindRoot_of_isAbsolute hpattern, String.toList_ofList]
    rfl
  | false =>
    rw [behindRoot_of_not habsolute, behindRoot_of_not, toList_patternIn hne]
    rw [isAbsolute_patternIn hne, habsolute]

end Stems

/-- The steps of a pattern that is relative to a directory, without those that lead to it. -/
def ownSteps (pattern : String) : Except PatternError (List Step) := do
  let pattern := String.ofList (dropHere pattern.toList)
  let _ ← wildcards pattern
  let ps ← (partsBeforeEnd pattern).mapM wildcards
  return ps.map .ofWildcards

section Steps

variable {dir pattern : String} {e : PatternError} {ws : List Wildcard}

theorem steps_of_error (h : wildcards pattern = .error e) : steps pattern = .error e := by
  rw [steps, h]
  rfl

theorem steps_of_ok (h : wildcards pattern = .ok ws) (hne : behindRoot pattern ≠ "") :
    steps pattern =
      ((partsBeforeEnd (behindRoot pattern)).mapM wildcards).map fun ps => ps.map .ofWildcards := by
  rw [steps, h]
  simp only [String.isEmpty_iff, if_neg hne]
  cases (partsBeforeEnd (behindRoot pattern)).mapM wildcards <;> rfl

theorem mapM_wildcards_escaped (ls : List (List Char)) :
    (ls.map fun n => String.ofList (n.flatMap escapeChar)).mapM wildcards =
      .ok (ls.map fun n => n.map literalWildcard) := by
  induction ls with
  | nil => rfl
  | cons n ls ih =>
    have hn : wildcards (String.ofList (n.flatMap escapeChar)) = .ok (n.map literalWildcard) := by
      rw [wildcards, String.toList_ofList, wildcardsFrom_escaped]
    rw [List.map_cons, List.mapM_cons, hn, ih]
    rfl

theorem partsBeforeEnd_escaped {path : String} {l r : List Char}
    (h : path.toList = l.flatMap escapeChar ++ '/' :: r) :
    partsBeforeEnd path =
      ((splitSlashes l).map fun n => String.ofList (n.flatMap escapeChar)) ++
        partsBeforeEnd (String.ofList r) := by
  have hne : parts (String.ofList r) ≠ [] := mt List.map_eq_nil_iff.1 (splitSlashes_ne_nil _)
  have hparts : parts path =
      ((splitSlashes l).map fun n => String.ofList (n.flatMap escapeChar)) ++
        parts (String.ofList r) := by
    rw [parts, h, splitSlashes_append_slash, splitSlashes_escaped, List.map_append, List.map_map,
      parts, String.toList_ofList]
    rfl
  have hlast : (parts path).getLast? = (parts (String.ofList r)).getLast? := by
    rw [hparts, List.getLast?_append]
    obtain ⟨q, hq⟩ := Option.isSome_iff_exists.1 (List.getLast?_isSome.2 hne)
    rw [hq]
    rfl
  rw [partsBeforeEnd, hlast, partsBeforeEnd]
  split
  · rw [hparts, List.dropLast_append_of_ne_nil hne]
  · exact hparts

/-- The names along a directory's path, from the root or from here. -/
def names (dir : String) : List String :=
  partsBeforeEnd (behindRoot dir)

/-- Each part of the directory is a step that leads only to what has this name. Whether the pattern is
right, and the steps behind, do not depend on the directory. -/
theorem toOption_steps_patternIn (h : behindRoot dir ≠ "") (pattern : String) :
    (steps (patternIn dir pattern)).toOption = (ownSteps pattern).toOption.map fun ss =>
      (names dir).map (fun n => Step.named n.toList) ++ ss := by
  have hdir : dir ≠ "" := by
    rintro rfl
    exact h rfl
  obtain ⟨j, hwhole⟩ :=
    wildcardsFrom_escaped_slash (stem dir) 0 none (dropHere pattern.toList)
  rw [← toList_patternIn hdir] at hwhole
  change wildcards (patternIn dir pattern) = _ at hwhole
  have hown : (wildcards (String.ofList (dropHere pattern.toList))).toOption =
      (wildcardsFrom j (some '/') (dropHere pattern.toList)).toOption := by
    rw [wildcards, String.toList_ofList]
    exact toOption_wildcardsFrom (iff_of_true (.inl rfl) (.inr rfl)) 0 j _
  have hbehind := toList_behindRoot_patternIn h pattern
  have hne : behindRoot (patternIn dir pattern) ≠ "" := by
    rw [Ne, ← String.toList_eq_nil_iff, hbehind]
    simp
  cases hw : wildcardsFrom j (some '/') (dropHere pattern.toList) with
  | error e =>
    rw [hw] at hwhole hown
    rw [steps_of_error hwhole, ownSteps]
    cases ho : wildcards (String.ofList (dropHere pattern.toList)) with
    | error e' => rfl
    | ok ws =>
      rw [ho] at hown
      cases hown
  | ok ws =>
    rw [hw] at hwhole hown
    rw [steps_of_ok hwhole hne, ownSteps, partsBeforeEnd_escaped hbehind, List.mapM_append,
      mapM_wildcards_escaped, names, partsBeforeEnd_eq h]
    cases ho : wildcards (String.ofList (dropHere pattern.toList)) with
    | error e =>
      rw [ho] at hown
      cases hown
    | ok ws' =>
      cases (partsBeforeEnd (String.ofList (dropHere pattern.toList))).mapM wildcards with
      | error e => rfl
      | ok ps =>
        have hlead : ((splitSlashes (stem (behindRoot dir))).map fun n =>
              n.map literalWildcard).map Step.ofWildcards =
            ((splitSlashes (stem (behindRoot dir))).map String.ofList).map fun n =>
              Step.named n.toList := by
          rw [List.map_map, List.map_map]
          refine List.map_congr_left fun n _ => ?_
          rw [Function.comp, Function.comp, String.toList_ofList, Step.named]
        have hall : (((splitSlashes (stem (behindRoot dir))).map fun n =>
            n.map literalWildcard) ++ ps).map Step.ofWildcards = _ :=
          List.map_append.trans (congrArg (· ++ _) hlead)
        exact congrArg some hall

end Steps

end SchemaTypings.Files
