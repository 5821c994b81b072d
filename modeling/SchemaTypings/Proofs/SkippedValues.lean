import SchemaTypings.Json.Skip
import SchemaTypings.Proofs.JsonStrings

namespace SchemaTypings.Json

open Number (leadingDigits)

section Numerals

variable {r s ds : List Char} {f : Fault}

/-- A decoder takes a text off, whatever it makes of it. -/
def Takes {α : Type} (p : Decoder α) (s r : List Char) : Prop :=
  ∃ a, taken p (s ++ r) = some (a, r)

def NoDigit (r : List Char) : Prop :=
  ∀ c ∈ r.head?, c.isDigit = false

theorem noDigit_of_endsValue (h : EndsValue r) : NoDigit r := by
  intro c hc
  obtain hs | hm := h c hc
  · exact isDigit_of_isSpace hs
  · simp only [List.mem_cons, List.not_mem_nil, or_false] at hm
    obtain rfl | rfl | rfl := hm <;> rfl

theorem leadingDigits_append (h : ∀ c ∈ ds, c.isDigit = true) (hr : NoDigit r) :
    leadingDigits (ds ++ r) = (ds.map fun c => c.toNat - 48, r) := by
  have hnone : r.takeWhile Char.isDigit = [] ∧ r.dropWhile Char.isDigit = r := by
    cases r with
    | nil => exact ⟨rfl, rfl⟩
    | cons c r =>
      have hc := hr c rfl
      rw [List.takeWhile_cons, List.dropWhile_cons, hc]
      exact ⟨rfl, rfl⟩
  rw [leadingDigits, List.takeWhile_append_of_pos h, List.dropWhile_append_of_pos h, hnone.1,
    hnone.2, List.append_nil]

theorem takes_digits (h : IsDigits ds) (hr : NoDigit r) : Takes (digits f) ds r := by
  obtain ⟨c, ds, rfl⟩ := List.exists_cons_of_ne_nil h.1
  refine ⟨(c :: ds).map fun c => c.toNat - 48, ?_⟩
  rw [taken, digits, leadingDigits_append h.2 hr]
  rfl

theorem wholeDigits_zero (hr : NoDigit r) : wholeDigits f ('0' :: r) = .ok ([0], r) := by
  cases r with
  | nil => rfl
  | cons c r =>
    have hc : ¬c.isDigit = true := Bool.eq_false_iff.1 (hr c rfl)
    exact if_neg hc

theorem wholeDigits_of_ne (h : s.head? ≠ some '0') : wholeDigits f s = digits f s := by
  rw [wholeDigits]
  rintro d r rfl
  exact h rfl

theorem takes_wholeDigits (h : IsWhole s) (hr : NoDigit r) : Takes (wholeDigits f) s r := by
  obtain rfl | ⟨h, hzero⟩ := h
  · exact ⟨[0], congrArg Except.toOption (wholeDigits_zero hr)⟩
  · obtain ⟨x, hx⟩ := takes_digits (f := f) h hr
    refine ⟨x, ?_⟩
    have hhead : (s ++ r).head? ≠ some '0' := by
      rwa [List.head?_append_of_ne_nil s h.1]
    rw [taken, wholeDigits_of_ne hhead]
    exact hx

theorem takes_fraction (h : IsFraction s) (hr : NoDigit r) (hpoint : r.head? ≠ some '.') :
    Takes (fraction f) s r := by
  obtain rfl | ⟨ds, hds, rfl⟩ := h
  · refine ⟨none, ?_⟩
    rw [List.nil_append, taken, fraction]
    · rfl
    · rintro q rfl
      exact hpoint rfl
  · obtain ⟨x, hx⟩ := takes_digits (f := f) hds hr
    rw [taken] at hx
    refine ⟨some x, ?_⟩
    rw [List.cons_append, taken, fraction]
    simp only [toOption_map, hx]
    rfl

theorem takes_sign (h : s ∈ [[], ['+'], ['-']]) (hr : r.head? ≠ some '+' ∧ r.head? ≠ some '-') :
    Takes sign s r := by
  simp only [List.mem_cons, List.not_mem_nil, or_false] at h
  obtain rfl | rfl | rfl := h
  · refine ⟨false, ?_⟩
    rw [List.nil_append, taken, sign]
    · rfl
    · rintro q rfl
      exact hr.2 rfl
    · rintro q rfl
      exact hr.1 rfl
  · exact ⟨false, rfl⟩
  · exact ⟨true, rfl⟩

theorem takes_exponent (h : IsExponent s) (hr : NoDigit r)
    (he : r.head? ≠ some 'e' ∧ r.head? ≠ some 'E') : Takes (exponent f) s r := by
  obtain rfl | ⟨e, hmem, sgn, hsgn, ds, hds, rfl⟩ := h
  · refine ⟨none, ?_⟩
    rw [List.nil_append, taken, exponent]
    · rfl
    · rintro q rfl
      exact he.1 rfl
    · rintro q rfl
      exact he.2 rfl
  · obtain ⟨x, hx⟩ := takes_digits (f := f) hds hr
    have hhead : (ds ++ r).head? ≠ some '+' ∧ (ds ++ r).head? ≠ some '-' := by
      obtain ⟨c, cs, rfl⟩ := List.exists_cons_of_ne_nil hds.1
      have hc := hds.2 c (List.mem_cons_self ..)
      constructor <;> rintro ⟨⟩ <;> exact absurd hc (by decide)
    obtain ⟨b, hb⟩ := takes_sign hsgn hhead
    have hrest : taken (exponentRest f) (sgn ++ (ds ++ r)) = some (some (Number.signed b x), r) := by
      rw [exponentRest, taken_bind, hb, Option.bind_some, taken_bind, hx]
      rfl
    refine ⟨some (Number.signed b x), ?_⟩
    rw [List.cons_append, List.append_assoc]
    simp only [List.mem_cons, List.not_mem_nil, or_false] at hmem
    obtain rfl | rfl := hmem <;> exact hrest

theorem noDigit_of_mem {c : Char} (h : c ∈ ['.', 'e', 'E']) (r : List Char) : NoDigit (c :: r) := by
  rintro _ ⟨⟩
  simp only [List.mem_cons, List.not_mem_nil, or_false] at h
  obtain rfl | rfl | rfl := h <;> rfl

/-- Behind its sign, a numeral is taken off up to its end. -/
theorem takes_numeralRest {whole fraction exponent : List Char} (hwhole : IsWhole whole)
    (hfraction : IsFraction fraction) (hexponent : IsExponent exponent) (hr : EndsValue r)
    (negative : Bool) :
    Takes (numeralRest f negative) (whole ++ (fraction ++ exponent)) r := by
  have hends : ∀ c ∈ ['.', 'e', 'E'], r.head? ≠ some c := by
    intro c hc hhead
    simp only [List.mem_cons, List.not_mem_nil, or_false] at hc
    obtain rfl | rfl | rfl := hc <;> exact absurd (hr _ hhead) (by decide)
  have hexponentEnd : NoDigit (exponent ++ r) ∧ (exponent ++ r).head? ≠ some '.' := by
    obtain rfl | ⟨e, he, sgn, -, ds, -, rfl⟩ := hexponent
    · exact ⟨noDigit_of_endsValue hr, hends '.' (by decide)⟩
    · refine ⟨noDigit_of_mem (List.mem_cons_of_mem _ he) _, ?_⟩
      rintro ⟨⟩
      exact absurd he (by decide)
  have hfractionEnd : NoDigit (fraction ++ (exponent ++ r)) := by
    obtain rfl | ⟨ds, -, rfl⟩ := hfraction
    · exact hexponentEnd.1
    · exact noDigit_of_mem (List.mem_cons_self ..) _
  obtain ⟨w, hw⟩ := takes_wholeDigits (f := f) hwhole hfractionEnd
  obtain ⟨x, hx⟩ := takes_fraction (f := f) hfraction hexponentEnd.1 hexponentEnd.2
  obtain ⟨e, he⟩ := takes_exponent (f := f) hexponent (noDigit_of_endsValue hr)
    ⟨hends 'e' (by decide), hends 'E' (by decide)⟩
  refine ⟨⟨negative, w, x, e⟩, ?_⟩
  simp only [List.append_assoc, numeralRest, taken_bind, hw, hx, he, Option.bind_some, taken_pure]

end Numerals

section Words

variable {r s : List Char} {c : Char}

theorem taken_skipNumeral {whole fraction exponent : List Char} (hwhole : IsWhole whole)
    (hfraction : IsFraction fraction) (hexponent : IsExponent exponent) (hr : EndsValue r)
    (negative : Bool) :
    taken (skipNumeral negative) (whole ++ (fraction ++ exponent) ++ r) = some ((), r) := by
  obtain ⟨n, hn⟩ := takes_numeralRest (f := .malformed) hwhole hfraction hexponent hr negative
  rw [skipNumeral, taken_bind, hn]
  rfl

theorem skipWord_digit (h : c.isDigit = true) (r : List Char) :
    (skipWord (c :: r)).toOption =
      (taken (skipNumeral false) (c :: r)).map fun p => (none, p.2) := by
  have hword : skipWord (c :: r) =
      (skipNumeral false (c :: r)).map fun p : Unit × List Char => (none, p.2) := by
    rw [skipWord, if_pos h]
    all_goals
      rintro rfl
      exact absurd h (by decide)
  rw [hword, toOption_map, taken]

theorem skipWord_number (h : IsNumeral s) (hr : EndsValue r) :
    (skipWord (s ++ r)).toOption = some (none, r) := by
  obtain ⟨minus, hminus, whole, fraction, exponent, hwhole, hfraction, hexponent, rfl⟩ := h
  have hskip := taken_skipNumeral hwhole hfraction hexponent hr
  simp only [List.mem_cons, List.not_mem_nil, or_false] at hminus
  obtain rfl | rfl := hminus
  · have hdigit : ∃ c t, whole ++ (fraction ++ exponent) ++ r = c :: t ∧ c.isDigit = true := by
      obtain rfl | ⟨⟨hne, hdigits⟩, -⟩ := hwhole
      · exact ⟨'0', _, rfl, rfl⟩
      · obtain ⟨c, ds, rfl⟩ := List.exists_cons_of_ne_nil hne
        exact ⟨c, _, rfl, hdigits c (List.mem_cons_self ..)⟩
    obtain ⟨c, t, he, hc⟩ := hdigit
    have hfalse := hskip false
    rw [he] at hfalse
    rw [List.nil_append, he, skipWord_digit hc, hfalse]
    rfl
  · have hword : skipWord ('-' :: (whole ++ (fraction ++ exponent) ++ r)) =
        (skipNumeral true (whole ++ (fraction ++ exponent) ++ r)).map
          fun p : Unit × List Char => (none, p.2) := rfl
    have htrue := hskip true
    rw [taken] at htrue
    rw [List.singleton_append, List.cons_append, hword, toOption_map, htrue]
    rfl

theorem skipWord_string {t : Option String} (h : IsQuoted t s) (r : List Char) :
    (skipWord (s ++ r)).toOption = some (none, r) := by
  obtain ⟨body, rfl, -, hskip⟩ := h.exists_body
  have hword : skipWord ('"' :: (body ++ r)) =
      (skipString (body ++ r)).map fun p : Unit × List Char => (none, p.2) := rfl
  have hbody := hskip r
  rw [taken] at hbody
  rw [List.cons_append, hword, toOption_map, hbody]
  rfl

theorem taken_punctuation {l : List Char} (hl : IsSpaces l) (hc : isSpace c = false)
    (r : List Char) : taken (punctuation c) (l ++ c :: r) = some ((), r) := by
  have hdrop : dropSpace (l ++ c :: r) = c :: r := by
    rw [dropSpace_append hl, dropSpace_cons hc]
  simp only [taken, punctuation, hdrop, ↓reduceIte]
  rfl

theorem taken_skipKey {e : Entry} (h : e.IsSpaced) (r : List Char) :
    taken skipKey (e.before ++ (e.keyText ++ (e.behind ++ ':' :: r))) = some ((), r) := by
  obtain ⟨body, hbody, -, hskip⟩ := h.key.exists_body
  rw [skipKey, taken_bind, hbody, List.cons_append, taken_punctuation h.before (by decide),
    Option.bind_some, taken_bind, hskip, Option.bind_some, taken_punctuation h.behind (by decide)]

end Words

/-- What is to be passed over: what comes next, in which brackets, and the text. -/
structure Skipping where
  next : Next
  brackets : List Bracket
  rest : List Char

namespace Skipping

def run (k : Skipping) (bound : List Char) : Option (List Char) :=
  (skipOver bound k.next k.brackets k.rest).toOption

/-- It gets so far in at most `m` steps, if it may take as many. -/
def Reaches (m : Nat) (k k' : Skipping) : Prop :=
  ∃ n ≤ m, ∀ bound : List Char, n ≤ bound.length → k.run bound = k'.run (bound.drop n)

variable {k k' k'' : Skipping} {m n : Nat}

theorem Reaches.trans (h : Reaches m k k') (h' : Reaches n k' k'') : Reaches (m + n) k k'' := by
  obtain ⟨i, hi, hrun⟩ := h
  obtain ⟨j, hj, hrun'⟩ := h'
  refine ⟨i + j, Nat.add_le_add hi hj, fun bound hb => ?_⟩
  have hdrop : j ≤ (bound.drop i).length := by
    rw [List.length_drop]
    omega
  rw [hrun bound (by omega), hrun' _ hdrop, List.drop_drop]

theorem Reaches.mono (h : Reaches m k k') (hn : m ≤ n) : Reaches n k k' := by
  obtain ⟨i, hi, hrun⟩ := h
  exact ⟨i, Nat.le_trans hi hn, hrun⟩

theorem Reaches.step (h : ∀ b bound, k.run (b :: bound) = k'.run bound) : Reaches 1 k k' := by
  refine ⟨1, Nat.le_refl 1, fun bound hb => ?_⟩
  cases bound with
  | nil => exact absurd hb (by decide)
  | cons b bound => exact h b bound

section Steps

variable {b : Bracket} {bs : List Bracket} {l r s : List Char} {c : Char}

theorem not_isSpace_closing (b : Bracket) : isSpace b.closing = false := by
  cases b <;> rfl

theorem comma_ne_closing (b : Bracket) : b.closing ≠ ',' := by
  cases b <;> decide

theorem reaches_comma (hl : IsSpaces l) (b : Bracket) (bs : List Bracket) (r : List Char) :
    Reaches 1 ⟨.behind, b :: bs, l ++ ',' :: r⟩ ⟨b.item, b :: bs, r⟩ := by
  have hdrop : dropSpace (l ++ ',' :: r) = ',' :: r := by
    rw [dropSpace_append hl, dropSpace_cons (by decide)]
  apply Reaches.step
  intro x bound
  simp only [run, skipOver, hdrop, ↓reduceIte]

theorem reaches_closing (hl : IsSpaces l) (b : Bracket) (bs : List Bracket) (r : List Char) :
    Reaches 1 ⟨.behind, b :: bs, l ++ b.closing :: r⟩ ⟨.behind, bs, r⟩ := by
  have hdrop : dropSpace (l ++ b.closing :: r) = b.closing :: r := by
    rw [dropSpace_append hl, dropSpace_cons (not_isSpace_closing b)]
  apply Reaches.step
  intro x bound
  simp only [run, skipOver, hdrop, comma_ne_closing, ↓reduceIte]

theorem reaches_key {e : Entry} (h : e.IsSpaced) (hl : IsSpaces l) (bs : List Bracket)
    (r : List Char) :
    Reaches 1 ⟨.entry, bs, l ++ (e.keyText ++ (e.behind ++ ':' :: r))⟩ ⟨.value, bs, r⟩ := by
  have hkey := taken_skipKey (e := { e with before := l }) ⟨hl, h.key, h.behind, h.element⟩ r
  apply Reaches.step
  intro x bound
  simp only [run, skipOver]
  rw [taken] at hkey
  cases hk : skipKey (l ++ (e.keyText ++ (e.behind ++ ':' :: r))) with
  | error f =>
    rw [hk] at hkey
    cases hkey
  | ok p =>
    rw [hk] at hkey
    obtain rfl := Option.some.inj hkey
    rfl

theorem reaches_word (h : (skipWord (dropSpace s)).toOption = some (none, r)) (bs : List Bracket) :
    Reaches 1 ⟨.value, bs, s⟩ ⟨.behind, bs, r⟩ := by
  apply Reaches.step
  intro x bound
  simp only [run, skipOver]
  cases hw : skipWord (dropSpace s) with
  | error f =>
    rw [hw] at h
    cases h
  | ok p =>
    rw [hw] at h
    obtain rfl := Option.some.inj h
    rfl

theorem reaches_open {t : List Char} (h : skipWord (dropSpace s) = .ok (some b, t))
    (ht : dropSpace t = c :: r) (bs : List Bracket) :
    Reaches 1 ⟨.value, bs, s⟩
      (if c = b.closing then ⟨.behind, bs, r⟩ else ⟨b.item, b :: bs, c :: r⟩) := by
  apply Reaches.step
  intro x bound
  simp only [run, skipOver, h, ht]
  split <;> rfl

end Steps

/-- A part of a bracket that starts with its first character and is passed over up to blanks at its
end. -/
structure IsItem (b : Bracket) (core : List Char) : Prop where
  starts : ∃ c q, core = c :: q ∧ isSpace c = false ∧ c ≠ b.closing
  reaches : ∀ l bs r, IsSpaces l → EndsValue r → ∃ l', IsSpaces l' ∧
    Reaches core.length ⟨b.item, b :: bs, l ++ (core ++ r)⟩ ⟨.behind, b :: bs, l' ++ r⟩

section Items

variable {b : Bracket} {l r : List Char} {items : List (List Char)}

def IsSpacedItem (b : Bracket) (t : List Char) : Prop :=
  ∃ l core, IsSpaces l ∧ IsItem b core ∧ t = l ++ core

theorem endsValue_closing (b : Bracket) (r : List Char) : EndsValue (b.closing :: r) :=
  endsValue_cons (by cases b <;> decide) r

theorem endsValue_items (b : Bracket) (items : List (List Char)) (r : List Char) :
    EndsValue (items.flatMap (',' :: ·) ++ b.closing :: r) := by
  cases items with
  | nil => exact endsValue_closing b r
  | cons t items => exact endsValue_cons (by decide) _

/-- The run over the items behind the first one. -/
theorem reaches_items (h : ∀ t ∈ items, IsSpacedItem b t) (hl : IsSpaces l) (bs : List Bracket)
    (r : List Char) :
    Reaches ((items.flatMap (',' :: ·)).length + 1)
      ⟨.behind, b :: bs, l ++ (items.flatMap (',' :: ·) ++ b.closing :: r)⟩ ⟨.behind, bs, r⟩ := by
  induction items generalizing l with
  | nil => exact (reaches_closing hl b bs r).mono (by simp)
  | cons t items ih =>
    obtain ⟨⟨m, core, hm, hcore, rfl⟩, hitems⟩ := List.forall_mem_cons.1 h
    obtain ⟨l', hl', hreaches⟩ := hcore.reaches m bs _ hm (endsValue_items b items r)
    have hrun := ((reaches_comma hl b bs _).trans hreaches).trans (ih hitems hl')
    have htext : ((m ++ core) :: items).flatMap (',' :: ·) ++ b.closing :: r =
        ',' :: (m ++ (core ++ (items.flatMap (',' :: ·) ++ b.closing :: r))) := by
      simp only [List.flatMap_cons, List.append_assoc, List.cons_append]
    rw [htext]
    refine hrun.mono ?_
    simp only [List.flatMap_cons, List.length_append, List.length_cons]
    omega

theorem intercalate_comma (t : List Char) (items : List (List Char)) :
    [','].intercalate (t :: items) = t ++ items.flatMap (',' :: ·) := by
  induction items generalizing t with
  | nil => simp
  | cons u items ih =>
    rw [List.intercalate_cons_cons, ih, List.flatMap_cons, List.append_assoc]
    rfl

/-- A bracket with any items, from its opening to its closing character. -/
theorem reaches_bracket {x : Char} (hx : ∀ q, skipWord (x :: q) = .ok (some b, q))
    (hspace : isSpace x = false) (hl : IsSpaces l) (h : ∀ t ∈ items, IsSpacedItem b t)
    {m : List Char} (hm : IsSpaces m) (bs : List Bracket) (r : List Char) :
    Reaches (l ++ [','].intercalate items).length.succ.succ
      ⟨.value, bs, m ++ x :: (l ++ [','].intercalate items ++ b.closing :: r)⟩
      ⟨.behind, bs, r⟩ := by
  have hopen : ∀ q, skipWord (dropSpace (m ++ x :: q)) = .ok (some b, q) := by
    intro q
    rw [dropSpace_append hm, dropSpace_cons hspace, hx]
  cases items with
  | nil =>
    have hdrop : dropSpace (l ++ [','].intercalate [] ++ b.closing :: r) = b.closing :: r := by
      rw [List.intercalate_nil, List.append_nil, dropSpace_append hl,
        dropSpace_cons (not_isSpace_closing b)]
    have hreaches := reaches_open (hopen _) hdrop bs
    rw [if_pos rfl] at hreaches
    exact hreaches.mono (by omega)
  | cons t items =>
    obtain ⟨⟨k, core, hk, hcore, rfl⟩, hitems⟩ := List.forall_mem_cons.1 h
    obtain ⟨c, q, rfl, hc, hne⟩ := hcore.starts
    obtain ⟨l', hl', hfirst⟩ := hcore.reaches [] bs _ isSpaces_nil (endsValue_items b items r)
    have hdrop : dropSpace (l ++ [','].intercalate ((k ++ c :: q) :: items) ++ b.closing :: r) =
        c :: (q ++ (items.flatMap (',' :: ·) ++ b.closing :: r)) := by
      rw [intercalate_comma, List.append_assoc, List.append_assoc, List.append_assoc,
        dropSpace_append hl, dropSpace_append hk, List.cons_append, dropSpace_cons hc]
    have hreaches := reaches_open (hopen _) hdrop bs
    rw [if_neg hne] at hreaches
    refine ((hreaches.trans hfirst).trans (reaches_items hitems hl' bs r)).mono ?_
    rw [intercalate_comma]
    simp only [List.length_append, List.length_cons]
    omega

end Items

end Skipping

section Values

open Skipping

variable {v : Value} {s l r : List Char}

def IsPassed (s : List Char) : Prop :=
  ∀ ⦃l r⦄, IsSpaces l → EndsValue r → ∀ bs,
    Reaches s.length ⟨.value, bs, l ++ (s ++ r)⟩ ⟨.behind, bs, r⟩

theorem isPassed_scalar (hs : ∃ c q, s = c :: q ∧ isSpace c = false)
    (h : ∀ r, EndsValue r → (skipWord (s ++ r)).toOption = some (none, r)) : IsPassed s := by
  obtain ⟨c, q, rfl, hc⟩ := hs
  intro l r hl hr bs
  have hdrop : dropSpace (l ++ (c :: q ++ r)) = c :: q ++ r := by
    rw [dropSpace_append hl, List.cons_append, dropSpace_cons hc]
  have hword : (skipWord (dropSpace (l ++ (c :: q ++ r)))).toOption = some (none, r) := by
    rw [hdrop, h r hr]
  exact (reaches_word hword bs).mono (Nat.succ_pos _)

theorem exists_head_of_quoted {t : Option String} (h : IsQuoted t s) :
    ∃ c q, s = c :: q ∧ isSpace c = false := by
  obtain ⟨body, rfl, -⟩ := h.exists_body
  exact ⟨'"', body, rfl, rfl⟩

theorem isSpacedItem_element {e : Element} (he : e.IsSpaced) (h : e.value.Written e.text)
    (hpassed : IsPassed e.text) : IsSpacedItem .square e.all := by
  obtain ⟨hbefore, hbehind⟩ := he
  obtain ⟨c, q, htext, hc, hne, -⟩ := h.exists_head
  refine ⟨e.before, e.text ++ e.behind, hbefore, ⟨⟨c, q ++ e.behind, ?_, hc, hne⟩, ?_⟩, rfl⟩
  · rw [htext, List.cons_append]
  · intro l bs r hl hr
    refine ⟨e.behind, hbehind, ?_⟩
    rw [List.append_assoc]
    exact (hpassed hl (hr.append hbehind) _).mono (by simp)

theorem isSpacedItem_entry {e : Entry} (he : e.IsSpaced) (hpassed : IsPassed e.element.text) :
    IsSpacedItem .curly e.all := by
  obtain ⟨hbefore, hbehind⟩ := he.element
  obtain ⟨body, hbody, -⟩ := he.key.exists_body
  refine ⟨e.before, e.keyText ++ (e.behind ++ ':' :: e.element.all), he.before,
    ⟨⟨'"', body ++ (e.behind ++ ':' :: e.element.all), ?_, by decide, by decide⟩, ?_⟩, rfl⟩
  · rw [hbody, List.cons_append]
  · intro l bs r hl hr
    refine ⟨e.element.behind, hbehind, ?_⟩
    have hvalue := hpassed hbefore (hr.append hbehind) (.curly :: bs)
    have hrun := (reaches_key he hl (.curly :: bs) _).trans hvalue
    have htext : e.keyText ++ (e.behind ++ ':' :: e.element.all) ++ r =
        e.keyText ++ (e.behind ++
          ':' :: (e.element.before ++ (e.element.text ++ (e.element.behind ++ r)))) := by
      simp only [Element.all, List.append_assoc, List.cons_append]
    rw [htext]
    refine hrun.mono ?_
    simp only [Element.all, List.length_append, List.length_cons]
    omega

theorem isPassed_bracket {b : Bracket} {x : Char} {m : List Char} {items : List (List Char)}
    (hx : ∀ q, skipWord (x :: q) = .ok (some b, q)) (hspace : isSpace x = false) (hm : IsSpaces m)
    (h : ∀ t ∈ items, IsSpacedItem b t) :
    IsPassed (x :: (m ++ [','].intercalate items ++ [b.closing])) := by
  intro l r hl hr bs
  have htext : x :: (m ++ [','].intercalate items ++ [b.closing]) ++ r =
      x :: (m ++ [','].intercalate items ++ b.closing :: r) := by
    simp only [List.cons_append, List.append_assoc, List.nil_append]
  rw [htext]
  refine (reaches_bracket hx hspace hm h hl bs r).mono (Nat.le_of_eq ?_)
  simp only [List.length_cons, List.length_append, List.length_nil]

theorem isPassed_value (h : v.Written s) : IsPassed s := by
  induction h with
  | null | yes | no => exact isPassed_scalar ⟨_, _, rfl, rfl⟩ fun _ _ => rfl
  | number h =>
    obtain ⟨c, q, hs, hc, -⟩ := (Value.Written.number h).exists_head
    exact isPassed_scalar ⟨c, q, hs, hc⟩ fun r hr => skipWord_number h hr
  | string h => exact isPassed_scalar (exists_head_of_quoted h) fun r _ => skipWord_string h r
  | @array es m hm hspaced h ih =>
    have hitems : ∀ t ∈ es.map Element.all, IsSpacedItem .square t :=
      List.forall_mem_map.2 fun e he => isSpacedItem_element (hspaced e he) (h e he) (ih e he)
    exact isPassed_bracket (fun q => rfl) (by decide) hm hitems
  | @object es m hm hspaced h ih =>
    have hitems : ∀ t ∈ es.map Entry.all, IsSpacedItem .curly t :=
      List.forall_mem_map.2 fun e he => isSpacedItem_entry (hspaced e he) (ih e he)
    exact isPassed_bracket (fun q => rfl) (by decide) hm hitems

/-- A value is passed over together with the blanks before it, and nothing more. -/
theorem taken_skipValue (h : v.Written s) (hl : IsSpaces l) (hr : EndsValue r) :
    taken skipValue (l ++ (s ++ r)) = some ((), r) := by
  obtain ⟨n, hn, hrun⟩ := isPassed_value h hl hr []
  have hbound : n ≤ (l ++ (s ++ r)).length := by
    simp only [List.length_append]
    omega
  have hskip := hrun _ hbound
  simp only [run] at hskip
  rw [taken, skipValue, toOption_map, hskip, skipOver]
  rfl

end Values

end SchemaTypings.Json
