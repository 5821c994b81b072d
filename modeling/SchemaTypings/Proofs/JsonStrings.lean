import SchemaTypings.Proofs.JsonTexts
import SchemaTypings.Proofs.Outcomes

namespace SchemaTypings.Json

section Taken

variable {α β : Type}

/-- What a decoder takes off a text and what it leaves, unless it finds a fault. -/
def taken (p : Decoder α) (s : List Char) : Option (α × List Char) :=
  (p s).toOption

theorem taken_bind (p : Decoder α) (f : α → Decoder β) (s : List Char) :
    taken (p >>= f) s = (taken p s).bind fun x => taken (f x.1) x.2 := by
  change ((p s).bind fun x => f x.1 x.2).toOption = (p s).toOption.bind fun x => (f x.1 x.2).toOption
  cases p s <;> rfl

theorem taken_pure (a : α) (s : List Char) : taken (pure a) s = some (a, s) :=
  rfl

theorem taken_throw (f : Fault) (s : List Char) : taken (throw f : Decoder α) s = none :=
  rfl

end Taken

section Escapes

variable {a b c d : Char} {n m : Nat}

theorem taken_fourDigits (h : Text.hexNumber? a b c d = some n) (r : List Char) :
    taken fourDigits (a :: b :: c :: d :: r) = some (n, r) := by
  rw [taken, fourDigits]
  simp only [List.take_succ_cons, List.take_zero, h]
  rfl

theorem taken_exactly_nil (r : List Char) : taken (exactly []) r = some ((), r) :=
  rfl

theorem taken_exactly_cons (c : Char) (cs r : List Char) :
    taken (exactly (c :: cs)) (c :: r) = taken (exactly cs) r := by
  have hstep : exactly (c :: cs) (c :: r) = exactly cs r := if_pos rfl
  rw [taken, hstep]
  rfl

theorem taken_exactly_of_ne {c d : Char} (h : d ≠ c) (cs r : List Char) :
    taken (exactly (c :: cs)) (d :: r) = none := by
  have hstep : exactly (c :: cs) (d :: r) = .error .malformed := if_neg h
  rw [taken, hstep]
  rfl

/-- Behind a leading surrogate, its partner has to come next. -/
def partnered (n : Nat) (r : List Char) : Option (Char × List Char) :=
  (taken (exactly ['\\', 'u']) r).bind fun x => (taken fourDigits x.2).bind fun y =>
    if isTrailing y.1 then some (pairedCode n y.1, y.2) else none

theorem taken_escapedCode (h : Text.hexNumber? a b c d = some n) (r : List Char) :
    taken escapedCode (a :: b :: c :: d :: r) =
      if isTrailing n then none
      else if isLeading n then partnered n r else some (Char.ofNat n, r) := by
  rw [escapedCode, taken_bind, taken_fourDigits h, Option.bind_some]
  cases isTrailing n with
  | true => rfl
  | false =>
    cases isLeading n with
    | false => rfl
    | true =>
      simp only [Bool.false_eq_true, ↓reduceIte, Bool.not_true, taken_bind, partnered]
      congr
      funext x
      congr
      funext y
      cases isTrailing y.1 <;> rfl

theorem partnered_code (h : Text.hexNumber? a b c d = some m) (r : List Char) :
    partnered n ('\\' :: 'u' :: a :: b :: c :: d :: r) =
      if isTrailing m then some (pairedCode n m, r) else none := by
  rw [partnered, taken_exactly_cons, taken_exactly_cons, taken_exactly_nil, Option.bind_some,
    taken_fourDigits h, Option.bind_some]

theorem partnered_of_ne (h : c ≠ '\\') (r : List Char) : partnered n (c :: r) = none := by
  rw [partnered, taken_exactly_of_ne h]
  rfl

theorem partnered_letter (h : c ≠ 'u') (r : List Char) : partnered n ('\\' :: c :: r) = none := by
  rw [partnered, taken_exactly_cons, taken_exactly_of_ne h]
  rfl

theorem ne_of_escapedLetter? {c x : Char} (h : Text.escapedLetter? c = some x) : c ≠ 'u' := by
  rintro rfl
  have hnone : Text.escapedLetter? 'u' = none := by decide
  exact Option.some_ne_none x (h.symm.trans hnone)

theorem taken_escape_letter {x : Char} (h : Text.escapedLetter? c = some x) (r : List Char) :
    taken escape (c :: r) = some (x, r) := by
  rw [taken, escape.eq_3 c r (ne_of_escapedLetter? h), h]
  rfl

theorem skippedEscape_letter {x : Char} (h : Text.escapedLetter? c = some x) (r : List Char) :
    taken skippedEscape (c :: r) = some (x, r) := by
  rw [taken, skippedEscape.eq_2 (c :: r) fun q hq => ne_of_escapedLetter? h (List.cons.inj hq).1]
  exact taken_escape_letter h r

theorem skippedEscape_code (h : Text.hexNumber? a b c d = some n) (r : List Char) :
    taken skippedEscape ('u' :: a :: b :: c :: d :: r) = some ('u', r) := by
  have hdigits := taken_fourDigits h r
  rw [taken] at hdigits
  rw [taken, skippedEscape, toOption_map, hdigits]
  rfl

end Escapes

section Strings

variable {e : Decoder Char} {c : Char} {bound r : List Char}

theorem stringWith_end (e : Decoder Char) (b : Char) (bound r : List Char) :
    stringWith e (b :: bound) ('"' :: r) = .ok ([], r) := by
  rw [stringWith]

theorem stringWith_plain (h : ¬c < ' ') (hquote : c ≠ '"') (hslash : c ≠ '\\') (b : Char) :
    (stringWith e (b :: bound) (c :: r)).toOption =
      (stringWith e bound r).toOption.map fun p => (c :: p.1, p.2) := by
  rw [stringWith, if_neg h, toOption_map]
  · exact hquote
  · exact hslash

theorem stringWith_escape (b : Char) (s : List Char) :
    (stringWith e (b :: bound) ('\\' :: s)).toOption = (taken e s).bind fun x =>
      (stringWith e bound x.2).toOption.map fun p => (x.1 :: p.1, p.2) := by
  rw [stringWith, taken]
  cases e s with
  | error f => rfl
  | ok x => exact toOption_map _ _

variable {ps : List Piece} {t : List Char} {ts : List (List Char)} {n : Nat}

theorem stringWith_char (h : Piece.Written (.char c) t) (b : Char) :
    (stringWith escape (b :: bound) (t ++ r)).toOption =
      (stringWith escape bound r).toOption.map fun p => (c :: p.1, p.2) := by
  cases h with
  | plain h hquote hslash => exact stringWith_plain h hquote hslash b
  | letter h =>
    refine (stringWith_escape b _).trans ?_
    exact congrArg (Option.bind · _) (taken_escape_letter h r)

theorem stringWith_code (h : Piece.Written (.code n) t) (b : Char) :
    (stringWith escape (b :: bound) (t ++ r)).toOption =
      (if isTrailing n then none
        else if isLeading n then partnered n r else some (Char.ofNat n, r)).bind fun x =>
          (stringWith escape bound x.2).toOption.map fun p => (x.1 :: p.1, p.2) := by
  cases h with
  | code h =>
    refine (stringWith_escape b _).trans ?_
    exact congrArg (Option.bind · _) (taken_escapedCode h r)

/-- Only a code unit can be the partner of a surrogate. -/
theorem partnered_eq_none (h : List.Forall₂ Piece.Written ps ts)
    (hps : ∀ m qs, ps ≠ .code m :: qs) (n : Nat) (r : List Char) :
    partnered n (ts.flatten ++ '"' :: r) = none := by
  cases h with
  | nil => exact partnered_of_ne (by decide) r
  | cons ht hts =>
    cases ht with
    | plain h hquote hslash => exact partnered_of_ne hslash _
    | letter h => exact partnered_letter (ne_of_escapedLetter? h) _
    | code h => exact absurd rfl (hps _ _)

theorem partnered_eq {m : Nat} (h : Piece.Written (.code m) t) (n : Nat) (r : List Char) :
    partnered n (t ++ r) = if isTrailing m then some (pairedCode n m, r) else none := by
  cases h with
  | code h => exact partnered_code h r

theorem charsOf?_trailing (hn : isTrailing n = true) : charsOf? (.code n :: ps) = none := by
  rw [charsOf?.eq_def]
  exact if_pos hn

theorem charsOf?_single (hn : ¬isTrailing n = true) (hl : ¬isLeading n = true) :
    charsOf? (.code n :: ps) = (charsOf? ps).map (Char.ofNat n :: ·) := by
  rw [charsOf?.eq_def]
  exact (if_neg hn).trans (if_neg hl)

theorem charsOf?_pair (hn : ¬isTrailing n = true) (hl : isLeading n = true) (m : Nat) :
    charsOf? (.code n :: .code m :: ps) =
      if isTrailing m then (charsOf? ps).map (pairedCode n m :: ·) else none := by
  rw [charsOf?.eq_def]
  exact (if_neg hn).trans (if_pos hl)

theorem charsOf?_unpaired (hn : ¬isTrailing n = true) (hl : isLeading n = true)
    (hps : ∀ m qs, ps ≠ .code m :: qs) : charsOf? (.code n :: ps) = none := by
  rw [charsOf?.eq_def]
  refine (if_neg hn).trans ((if_pos hl).trans ?_)
  cases ps with
  | nil => rfl
  | cons q qs =>
    cases q with
    | char c => rfl
    | code m => exact absurd rfl (hps m qs)

theorem toOption_stringWith (h : List.Forall₂ Piece.Written ps ts) (r : List Char) (b : Char)
    (hb : ps.length ≤ bound.length) :
    (stringWith escape (b :: bound) (ts.flatten ++ '"' :: r)).toOption =
      (charsOf? ps).map (·, r) := by
  -- The cases are those of `charsOf?`. A pair of surrogates is two pieces, but one of the bound.
  induction ps using charsOf?.induct generalizing ts b bound with
  | case1 =>
    cases h
    rw [List.flatten_nil, List.nil_append, stringWith_end]
    rfl
  | case2 c ps ih =>
    obtain ⟨t, ts, ht, hts, rfl⟩ := List.forall₂_cons_left_iff.1 h
    obtain _ | ⟨b', bound⟩ := bound
    · simp at hb
    rw [List.flatten_cons, List.append_assoc, stringWith_char ht b, charsOf?,
      ih hts b' (Nat.le_of_succ_le_succ hb), Option.map_map, Option.map_map]
    rfl
  | case3 n ps hn =>
    obtain ⟨t, ts, ht, hts, rfl⟩ := List.forall₂_cons_left_iff.1 h
    rw [List.flatten_cons, List.append_assoc, stringWith_code ht b, if_pos hn, charsOf?_trailing hn]
    rfl
  | case4 n hn hl m ps hm ih =>
    obtain ⟨t, ts, ht, hts, rfl⟩ := List.forall₂_cons_left_iff.1 h
    obtain ⟨u, us, hu, hus, rfl⟩ := List.forall₂_cons_left_iff.1 hts
    obtain _ | ⟨b', bound⟩ := bound
    · simp at hb
    have hbound : ps.length ≤ bound.length := by
      simp only [List.length_cons] at hb
      omega
    rw [List.flatten_cons, List.append_assoc, stringWith_code ht b, if_neg hn, if_pos hl,
      List.flatten_cons, List.append_assoc, partnered_eq hu, if_pos hm, Option.bind_some,
      ih hus b' hbound, charsOf?_pair hn hl, if_pos hm, Option.map_map, Option.map_map]
    simp only [Function.comp_def]
  | case5 n hn hl m ps hm =>
    obtain ⟨t, ts, ht, hts, rfl⟩ := List.forall₂_cons_left_iff.1 h
    obtain ⟨u, us, hu, hus, rfl⟩ := List.forall₂_cons_left_iff.1 hts
    rw [List.flatten_cons, List.append_assoc, stringWith_code ht b, if_neg hn, if_pos hl,
      List.flatten_cons, List.append_assoc, partnered_eq hu, if_neg hm,
      charsOf?_pair hn hl, if_neg hm]
    rfl
  | case6 n ps hn hl hps =>
    obtain ⟨t, ts, ht, hts, rfl⟩ := List.forall₂_cons_left_iff.1 h
    rw [List.flatten_cons, List.append_assoc, stringWith_code ht b, if_neg hn, if_pos hl,
      partnered_eq_none hts hps, charsOf?_unpaired hn hl hps]
    rfl
  | case7 n ps hn hl ih =>
    obtain ⟨t, ts, ht, hts, rfl⟩ := List.forall₂_cons_left_iff.1 h
    obtain _ | ⟨b', bound⟩ := bound
    · simp at hb
    rw [List.flatten_cons, List.append_assoc, stringWith_code ht b, if_neg hn, if_neg hl,
      Option.bind_some, ih hts b' (Nat.le_of_succ_le_succ hb), charsOf?_single hn hl, Option.map_map,
      Option.map_map]
    rfl

theorem skipped_piece {q : Piece} (h : q.Written t) (b : Char) : ∃ x,
    (stringWith skippedEscape (b :: bound) (t ++ r)).toOption =
      (stringWith skippedEscape bound r).toOption.map fun p => (x :: p.1, p.2) := by
  cases h with
  | plain h hquote hslash => exact ⟨_, stringWith_plain h hquote hslash b⟩
  | @letter c x h =>
    refine ⟨x, (stringWith_escape b _).trans ?_⟩
    exact congrArg (Option.bind · _) (skippedEscape_letter h r)
  | code h =>
    refine ⟨'u', (stringWith_escape b _).trans ?_⟩
    exact congrArg (Option.bind · _) (skippedEscape_code h r)

theorem exists_skipped (h : List.Forall₂ Piece.Written ps ts) (r : List Char) (b : Char)
    (hb : ps.length ≤ bound.length) : ∃ cs,
    (stringWith skippedEscape (b :: bound) (ts.flatten ++ '"' :: r)).toOption = some (cs, r) := by
  induction h generalizing b bound with
  | nil => exact ⟨[], by rw [List.flatten_nil, List.nil_append, stringWith_end]; rfl⟩
  | cons ht hts ih =>
    obtain _ | ⟨b', bound⟩ := bound
    · simp at hb
    obtain ⟨cs, hcs⟩ := ih b' (Nat.le_of_succ_le_succ hb)
    obtain ⟨x, hx⟩ := skipped_piece ht b
    refine ⟨x :: cs, ?_⟩
    rw [List.flatten_cons, List.append_assoc, hx, hcs]
    rfl

theorem Piece.Written.length_pos {q : Piece} (h : q.Written t) : 0 < t.length := by
  cases h <;> exact Nat.succ_pos _

theorem length_le_flatten (h : List.Forall₂ Piece.Written ps ts) :
    ps.length ≤ ts.flatten.length := by
  induction h with
  | nil => exact Nat.zero_le _
  | cons ht _ ih =>
    have hpos := ht.length_pos
    rw [List.flatten_cons, List.length_append, List.length_cons]
    omega

/-- Behind its opening quote, a string is decoded to its text, and passed over also if it has none. -/
theorem IsQuoted.exists_body {x : Option String} {s : List Char} (h : IsQuoted x s) :
    ∃ body, s = '"' :: body ∧ (∀ r, taken stringRest (body ++ r) = x.map (·, r)) ∧
      ∀ r, taken skipString (body ++ r) = some ((), r) := by
  obtain ⟨ps, ts, hps, rfl, rfl⟩ := h
  have hbound : ∀ r : List Char, ∃ b bound, ts.flatten ++ '"' :: r = b :: bound ∧
      ps.length ≤ bound.length := by
    intro r
    obtain ⟨b, bound, he⟩ := List.exists_cons_of_ne_nil
      (List.append_ne_nil_of_right_ne_nil ts.flatten (List.cons_ne_nil '"' r))
    have hlength := congrArg List.length he
    have hflatten := length_le_flatten hps
    simp only [List.length_append, List.length_cons] at hlength
    exact ⟨b, bound, he, by omega⟩
  refine ⟨ts.flatten ++ ['"'], rfl, fun r => ?_, fun r => ?_⟩
  · obtain ⟨b, bound, he, hb⟩ := hbound r
    have hread := toOption_stringWith hps r b hb
    rw [← he] at hread
    rw [List.append_assoc, List.singleton_append, taken, stringRest, toOption_map, hread,
      Option.map_map, Option.map_map]
    rfl
  · obtain ⟨b, bound, he, hb⟩ := hbound r
    obtain ⟨cs, hskip⟩ := exists_skipped hps r b hb
    rw [← he] at hskip
    rw [List.append_assoc, List.singleton_append, taken, skipString, toOption_map, hskip]
    rfl

end Strings

end SchemaTypings.Json
