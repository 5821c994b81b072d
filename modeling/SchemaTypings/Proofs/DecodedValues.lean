import SchemaTypings.Json.Decode
import SchemaTypings.Proofs.SkippedValues

namespace SchemaTypings.Json

section Words

variable {α : Type} {v : Value} {s l r : List Char}

/-- On every text of a value, the decoder gives what the reading of the value is, and leaves what
stands behind it. Where the value has no reading, it finds a fault. -/
def Decodes (p : Decoder α) (reading : Value → Option α) : Prop :=
  ∀ ⦃v s l r⦄, v.Written s → IsSpaces l → EndsValue r →
    taken p (l ++ (s ++ r)) = (reading v).map (·, r)

theorem decodes_skipValue : Decodes skipValue fun _ => some () :=
  fun _ _ _ _ h hl hr => taken_skipValue h hl hr

theorem Decodes.map {β : Type} {p : Decoder α} {reading : Value → Option α} (h : Decodes p reading)
    (f : α → β) : Decodes (do return f (← p)) fun v => (reading v).map f := by
  intro v s l r hs hl hr
  simp only [taken_bind, h hs hl hr]
  cases reading v <;> rfl

theorem taken_expect (wanted : String) (accept : Found → Option α) (s : List Char) :
    taken (expect wanted accept) s =
      (taken found (dropSpace s)).bind fun x => (accept x.1).map (·, x.2) := by
  rw [taken, taken, expect]
  cases found (dropSpace s) with
  | error f => rfl
  | ok x =>
    obtain ⟨w, t⟩ := x
    simp only [Except.toOption, Option.bind_some]
    cases accept w <;> rfl

def Found.isNumber : Found → Bool
  | integer _ => true
  | float _ => true
  | _ => false

theorem refuses_number {accept : Found → Option α} (hinteger : ∀ i, accept (.integer i) = none)
    (hfloat : ∀ t, accept (.float t) = none) (w : Found) (hw : w.isNumber = true) :
    accept w = none := by
  cases w with
  | integer i => exact hinteger i
  | float t => exact hfloat t
  | _ => cases hw

theorem isNumber_of_foundNumber (n : Number.Numeral) :
    ∀ w ∈ (foundNumber n).toOption, w.isNumber = true := by
  rw [foundNumber]
  cases integer? n with
  | some i =>
    rintro w ⟨⟩
    rfl
  | none =>
    cases n.magnitude with
    | some d =>
      rintro w ⟨⟩
      rfl
    | none => exact nofun

theorem isNumber_of_numeral (negative : Bool) (s : List Char) :
    ∀ x ∈ ((numeralRest .ended negative s).bind fun p =>
      (foundNumber p.1).map (·, p.2)).toOption, x.1.isNumber = true := by
  cases numeralRest .ended negative s with
  | error f => exact nofun
  | ok p =>
    intro x hx
    have hmap : x ∈ (foundNumber p.1).toOption.map (·, p.2) := toOption_map _ _ ▸ hx
    obtain ⟨w, hw, rfl⟩ := Option.map_eq_some_iff.1 hmap
    exact isNumber_of_foundNumber p.1 w hw

theorem isNumber_of_found (h : IsNumeral s) (r : List Char) :
    ∀ x ∈ taken found (s ++ r), x.1.isNumber = true := by
  obtain ⟨c, q, rfl, rfl | hc⟩ := h.exists_head
  · exact isNumber_of_numeral true (q ++ r)
  · have hfound : found (c :: (q ++ r)) = (numeralRest .ended false (c :: (q ++ r))).bind fun p =>
        (foundNumber p.1).map (·, p.2) := by
      rw [found, if_pos hc]
      all_goals
        rintro rfl
        exact absurd hc (by decide)
    rw [taken, List.cons_append, hfound]
    exact isNumber_of_numeral false (c :: (q ++ r))

/-- What is found at the head of a value, if it is no number. -/
def Value.head? : Value → Option Found
  | null => some .null
  | boolean b => some (.boolean b)
  | number => none
  | string t => t.map .string
  | array _ => some .sequence
  | object _ => some .map

/-- What is left behind the head of a value: in brackets, everything behind the opening one. -/
def Value.behindHead (s r : List Char) : Value → List Char
  | array _ => (s ++ r).tail
  | object _ => (s ++ r).tail
  | _ => r

theorem dropSpace_written (h : v.Written s) (hl : IsSpaces l) (r : List Char) :
    dropSpace (l ++ (s ++ r)) = s ++ r := by
  obtain ⟨c, q, rfl, hc, -⟩ := h.exists_head
  rw [dropSpace_append hl, List.cons_append, dropSpace_cons hc]

theorem taken_expect_written {wanted : String} {accept : Found → Option α}
    (hnumber : ∀ w : Found, w.isNumber = true → accept w = none) (h : v.Written s)
    (hl : IsSpaces l) (r : List Char) :
    taken (expect wanted accept) (l ++ (s ++ r)) =
      (v.head?.bind accept).map (·, v.behindHead s r) := by
  rw [taken_expect, dropSpace_written h hl]
  cases h with
  | null | yes | no | array | object => rfl
  | number h =>
    have hfound := isNumber_of_found h r
    cases hx : taken found (s ++ r) with
    | none => rfl
    | some x =>
      rw [Option.bind_some, hnumber x.1 (hfound x hx)]
      rfl
  | @string t s h =>
    obtain ⟨body, rfl, hbody, -⟩ := h.exists_body
    have hfound : found ('"' :: (body ++ r)) =
        (stringRest (body ++ r)).map fun p : String × List Char => (.string p.1, p.2) := rfl
    have hrest := hbody r
    rw [taken] at hrest
    rw [List.cons_append, taken, hfound, toOption_map, hrest]
    cases t <;> rfl

/-- A decoder of words, which accepts no number and no bracket. -/
theorem decodes_word {wanted : String} {accept : Found → Option α} {reading : Value → Option α}
    (hnumber : ∀ w : Found, w.isNumber = true → accept w = none)
    (hsequence : accept .sequence = none) (hmap : accept .map = none)
    (hreading : ∀ v : Value, v.head?.bind accept = reading v) :
    Decodes (expect wanted accept) reading := by
  intro v s l r h hl hr
  rw [taken_expect_written hnumber h hl, ← hreading]
  cases v with
  | array => rw [Value.head?, Option.bind_some, hsequence]; rfl
  | object => rw [Value.head?, Option.bind_some, hmap]; rfl
  | _ => rfl

def Value.text? : Value → Option String
  | string t => t
  | _ => none

def Value.truth? : Value → Option Bool
  | boolean b => some b
  | _ => none

def Value.nothing? : Value → Option Unit
  | null => some ()
  | _ => none

theorem decodes_string : Decodes string Value.text? := by
  refine decodes_word (refuses_number (fun _ => rfl) fun _ => rfl) rfl rfl fun v => ?_
  cases v with
  | string t => cases t <;> rfl
  | _ => rfl

theorem decodes_boolean : Decodes boolean Value.truth? := by
  refine decodes_word (refuses_number (fun _ => rfl) fun _ => rfl) rfl rfl fun v => ?_
  cases v with
  | string t => cases t <;> rfl
  | _ => rfl

theorem decodes_unit : Decodes unit Value.nothing? := by
  refine decodes_word (refuses_number (fun _ => rfl) fun _ => rfl) rfl rfl fun v => ?_
  cases v with
  | string t => cases t <;> rfl
  | _ => rfl

end Words

section Arrays

variable {σ : Type} {readers : List (σ → Decoder σ)} {readings : List (σ → Value → Option σ)}
  {l r : List Char}

def readElements : List (σ → Value → Option σ) → σ → List Value → Option σ
  | _, a, [] => some a
  | [], _, _ :: _ => none
  | f :: fs, a, v :: vs => (f a v).bind fun a => readElements fs a vs

def Element.IsWritten (e : Element) : Prop :=
  e.IsSpaced ∧ e.value.Written e.text

theorem elements_closing (hl : IsSpaces l) (readers : List (σ → Decoder σ)) (first : Bool) (a : σ)
    (r : List Char) : elements readers first a (l ++ ']' :: r) = .ok (a, r) := by
  have hdrop : dropSpace (l ++ ']' :: r) = ']' :: r := by
    rw [dropSpace_append hl, dropSpace_cons (by decide)]
  cases readers with
  | nil =>
    rw [elements.eq_2 first a _ _ r hdrop]
    rfl
  | cons p ps =>
    rw [elements.eq_3 first a _ p ps _ r hdrop]
    rfl

theorem elements_nil {s q : List Char} {c : Char} (h : dropSpace s = c :: q) (hc : c ≠ ']')
    (first : Bool) (a : σ) : (elements [] first a s).toOption = none := by
  rw [elements.eq_2 first a s c q h, if_neg hc]
  rfl

theorem toOption_bind_elements (x : Except Fault (σ × List Char)) :
    (x.bind fun p => elements readers false p.1 p.2).toOption =
      x.toOption.bind fun p => (elements readers false p.1 p.2).toOption := by
  cases x <;> rfl

theorem elements_first {s q : List Char} {c : Char} (h : dropSpace s = c :: q) (hc : c ≠ ']')
    (p : σ → Decoder σ) (a : σ) :
    (elements (p :: readers) true a s).toOption =
      (taken (p a) (c :: q)).bind fun x => (elements readers false x.1 x.2).toOption := by
  rw [elements.eq_3 true a s p readers c q h, if_neg hc, if_pos rfl]
  exact toOption_bind_elements _

theorem elements_comma {s q t : List Char} {c : Char} (h : dropSpace s = ',' :: q)
    (hq : dropSpace q = c :: t) (hc : c ≠ ']') (p : σ → Decoder σ) (a : σ) :
    (elements (p :: readers) false a s).toOption =
      (taken (p a) (c :: t)).bind fun x => (elements readers false x.1 x.2).toOption := by
  rw [elements.eq_3 false a s p readers ',' q h, if_neg (by decide), if_neg Bool.false_ne_true,
    if_pos rfl, hq]
  split
  · next he => cases he
  · next he => exact absurd (List.cons.inj he).1 hc
  · next => exact toOption_bind_elements _

theorem Element.IsWritten.exists_head {e : Element} (he : e.IsWritten) (r : List Char) :
    ∃ c q, dropSpace (e.all ++ r) = c :: q ∧ c ≠ ']' ∧ c :: q = e.text ++ (e.behind ++ r) := by
  obtain ⟨c, q, htext, hc, hne, -⟩ := he.2.exists_head
  refine ⟨c, q ++ (e.behind ++ r), ?_, hne, by rw [htext, List.cons_append]⟩
  rw [Element.all, List.append_assoc, List.append_assoc, dropSpace_append he.1.1, htext,
    List.cons_append, dropSpace_cons hc]

theorem taken_element {p : Decoder σ} {f : Value → Option σ} (h : Decodes p f) {e : Element}
    (he : e.IsWritten) (hr : EndsValue r) :
    taken p (e.text ++ (e.behind ++ r)) = (f e.value).map (·, e.behind ++ r) :=
  h he.2 isSpaces_nil (hr.append he.1.2)

theorem endsValue_elements (items : List (List Char)) (r : List Char) :
    EndsValue (items.flatMap (',' :: ·) ++ ']' :: r) :=
  Skipping.endsValue_items .square items r

/-- The run over the elements behind the first one. -/
theorem toOption_elements (h : List.Forall₂ (fun p f => ∀ a, Decodes (p a) (f a)) readers readings)
    {es : List Element} (hes : ∀ e ∈ es, e.IsWritten) (hl : IsSpaces l) (a : σ) (r : List Char) :
    (elements readers false a
        (l ++ ((es.map Element.all).flatMap (',' :: ·) ++ ']' :: r))).toOption =
      (readElements readings a (es.map Element.value)).map (·, r) := by
  induction es generalizing readers readings l a with
  | nil =>
    rw [List.map_nil, List.map_nil, readElements]
    exact congrArg Except.toOption (elements_closing hl readers false a r)
  | cons e es ih =>
    obtain ⟨he, hes⟩ := List.forall_mem_cons.1 hes
    have hdrop : dropSpace (l ++ (((e :: es).map Element.all).flatMap (',' :: ·) ++ ']' :: r)) =
        ',' :: (e.all ++ ((es.map Element.all).flatMap (',' :: ·) ++ ']' :: r)) := by
      rw [dropSpace_append hl, List.map_cons, List.flatMap_cons, List.cons_append, List.cons_append,
        dropSpace_cons (by decide), List.append_assoc]
    have hends := endsValue_elements (es.map Element.all) r
    cases h with
    | nil => rw [elements_nil hdrop (by decide), List.map_cons, readElements, Option.map_none]
    | @cons p f readers readings hp hps =>
      obtain ⟨c, q, hq, hc, htext⟩ := he.exists_head
        ((es.map Element.all).flatMap (',' :: ·) ++ ']' :: r)
      rw [elements_comma hdrop hq hc, htext, taken_element (hp a) he hends, List.map_cons,
        readElements]
      cases f a e.value with
      | none => rfl
      | some a => exact ih hps hes he.1.2 a

theorem taken_elements (h : List.Forall₂ (fun p f => ∀ a, Decodes (p a) (f a)) readers readings)
    {es : List Element} (hes : ∀ e ∈ es, e.IsWritten) (hl : IsSpaces l) (a : σ) (r : List Char) :
    taken (elements readers true a)
        (l ++ [','].intercalate (es.map Element.all) ++ ']' :: r) =
      (readElements readings a (es.map Element.value)).map (·, r) := by
  rw [taken]
  cases es with
  | nil =>
    rw [List.map_nil, List.map_nil, List.intercalate_nil, List.append_nil, elements_closing hl,
      readElements]
    rfl
  | cons e es =>
    obtain ⟨he, hes⟩ := List.forall_mem_cons.1 hes
    have hends := endsValue_elements (es.map Element.all) r
    obtain ⟨c, q, hq, hc, htext⟩ := he.exists_head
      ((es.map Element.all).flatMap (',' :: ·) ++ ']' :: r)
    have hdrop : dropSpace (l ++ [','].intercalate ((e :: es).map Element.all) ++ ']' :: r) =
        c :: q := by
      rw [List.map_cons, Skipping.intercalate_comma, List.append_assoc, List.append_assoc,
        dropSpace_append hl, hq]
    cases h with
    | nil => rw [elements_nil hdrop hc, List.map_cons, readElements, Option.map_none]
    | @cons p f readers readings hp hps =>
      rw [elements_first hdrop hc, htext, taken_element (hp a) he hends, List.map_cons,
        readElements]
      cases f a e.value with
      | none => rfl
      | some a => exact toOption_elements hps hes he.1.2 a r

end Arrays

section Objects

variable {σ : Type} {entry : σ → String → Decoder σ} {reading : σ → String → Value → Option σ}
  {l r : List Char}

def DecodesEntry (p : Decoder σ) (reading : Value → Option σ) : Prop :=
  ∀ ⦃v s m l r⦄, v.Written s → IsSpaces m → IsSpaces l → EndsValue r →
    taken p (m ++ ':' :: (l ++ (s ++ r))) = (reading v).map (·, r)

theorem Decodes.behindColon {p : Decoder σ} {f : Value → Option σ} (h : Decodes p f) :
    DecodesEntry (do punctuation ':'; p) f := by
  intro v s m l r hs hm hl hr
  rw [taken_bind, taken_punctuation hm (by decide)]
  exact h hs hl hr

def readEntries (reading : σ → String → Value → Option σ) :
    σ → List (Option String × Value) → Option σ
  | a, [] => some a
  | a, (k, v) :: es => (k.bind fun k => reading a k v).bind fun a => readEntries reading a es

def Entry.IsWritten (e : Entry) : Prop :=
  e.IsSpaced ∧ e.element.value.Written e.element.text

def Entry.pair (e : Entry) : Option String × Value :=
  (e.key, e.element.value)

theorem taken_entry {p : String → Decoder σ} {f : String → Value → Option σ}
    (h : ∀ k, DecodesEntry (p k) (f k)) {e : Entry} (he : e.IsWritten) (hl : IsSpaces l)
    (hr : EndsValue r) :
    taken (do punctuation '"'; p (← stringRest))
        (l ++ (e.keyText ++ (e.behind ++ ':' :: e.element.all)) ++ r) =
      (e.key.bind fun k => f k e.element.value).map (·, e.element.behind ++ r) := by
  obtain ⟨hspaced, hwritten⟩ := he
  obtain ⟨hbefore, hbehind⟩ := hspaced.element
  obtain ⟨body, hbody, hread, -⟩ := hspaced.key.exists_body
  have htext : l ++ (e.keyText ++ (e.behind ++ ':' :: e.element.all)) ++ r =
      l ++ '"' :: (body ++ (e.behind ++
        ':' :: (e.element.before ++ (e.element.text ++ (e.element.behind ++ r))))) := by
    simp only [hbody, Element.all, List.append_assoc, List.cons_append]
  rw [htext, taken_bind, taken_punctuation hl (by decide), Option.bind_some, taken_bind, hread]
  cases e.key with
  | none => rfl
  | some k => exact h k hwritten hspaced.behind hbefore (hr.append hbehind)

theorem entries_closing (entry : σ → String → Decoder σ) (hl : IsSpaces l) (b : Char)
    (bound : List Char) (first : Bool) (a : σ) (r : List Char) :
    entries entry (b :: bound) first a (l ++ '\x7d' :: r) = .ok (a, r) := by
  have hdrop : dropSpace (l ++ '\x7d' :: r) = '\x7d' :: r := by
    rw [dropSpace_append hl, dropSpace_cons (by decide)]
  rw [entries.eq_3 entry first a _ b bound _ r hdrop]
  rfl

theorem entries_first (entry : σ → String → Decoder σ) {c : Char} {s q : List Char}
    (h : dropSpace s = c :: q) (hc : c ≠ '\x7d') (b : Char) (bound : List Char) (a : σ) :
    (entries entry (b :: bound) true a s).toOption =
      (taken (do punctuation '"'; entry a (← stringRest)) (c :: q)).bind fun x =>
        (entries entry bound false x.1 x.2).toOption := by
  rw [entries.eq_3 entry true a s b bound c q h, if_neg hc, if_pos (.inl rfl), if_pos rfl, taken]
  cases (do punctuation '"'; entry a (← stringRest) : Decoder σ) (c :: q) <;> rfl

theorem entries_comma {s q : List Char} (h : dropSpace s = ',' :: q) (b : Char)
    (bound : List Char) (a : σ) :
    (entries entry (b :: bound) false a s).toOption =
      (taken (do punctuation '"'; entry a (← stringRest)) q).bind fun x =>
        (entries entry bound false x.1 x.2).toOption := by
  rw [entries.eq_3 entry false a s b bound ',' q h, if_neg (by decide), if_pos (.inr rfl),
    if_neg Bool.false_ne_true, taken]
  cases (do punctuation '"'; entry a (← stringRest) : Decoder σ) q <;> rfl

theorem endsValue_entries (items : List (List Char)) (r : List Char) :
    EndsValue (items.flatMap (',' :: ·) ++ '\x7d' :: r) :=
  Skipping.endsValue_items .curly items r

/-- The run over the entries behind the first one. -/
theorem toOption_entries (h : ∀ a k, DecodesEntry (entry a k) (reading a k)) {es : List Entry}
    (hes : ∀ e ∈ es, e.IsWritten) (hl : IsSpaces l) {bound : List Char}
    (hb : es.length < bound.length) (a : σ) (r : List Char) :
    (entries entry bound false a
        (l ++ ((es.map Entry.all).flatMap (',' :: ·) ++ '\x7d' :: r))).toOption =
      (readEntries reading a (es.map Entry.pair)).map (·, r) := by
  -- Each entry takes one of the bound, and leaves the blanks behind its value to the next step.
  induction es generalizing l bound a with
  | nil =>
    obtain ⟨b, bound, rfl⟩ := List.exists_cons_of_length_pos hb
    exact congrArg Except.toOption (entries_closing entry hl b bound false a r)
  | cons e es ih =>
    obtain ⟨he, hes⟩ := List.forall_mem_cons.1 hes
    obtain ⟨b, bound, rfl⟩ := List.exists_cons_of_length_pos (Nat.zero_lt_of_lt hb)
    have hdrop : dropSpace (l ++ (((e :: es).map Entry.all).flatMap (',' :: ·) ++ '\x7d' :: r)) =
        ',' :: (e.all ++ ((es.map Entry.all).flatMap (',' :: ·) ++ '\x7d' :: r)) := by
      rw [dropSpace_append hl, List.map_cons, List.flatMap_cons, List.cons_append, List.cons_append,
        dropSpace_cons (by decide), List.append_assoc]
    have hends := endsValue_entries (es.map Entry.all) r
    rw [entries_comma hdrop, Entry.all, taken_entry (h a) he he.1.before hends, List.map_cons,
      readEntries, Entry.pair]
    cases (e.key.bind fun k => reading a k e.element.value) with
    | none => rfl
    | some a => exact ih hes he.1.element.2 (Nat.lt_of_succ_lt_succ hb) a

theorem length_le_flatMap (items : List (List Char)) :
    items.length ≤ (items.flatMap (',' :: ·)).length := by
  induction items with
  | nil => exact Nat.le_refl 0
  | cons t items ih =>
    rw [List.flatMap_cons, List.length_append, List.length_cons, List.length_cons]
    omega

theorem taken_map (h : ∀ a k, DecodesEntry (entry a k) (reading a k)) {es : List Entry}
    (hes : ∀ e ∈ es, e.IsWritten) (hl : IsSpaces l) (a : σ) (r : List Char) :
    taken (map entry a) (l ++ [','].intercalate (es.map Entry.all) ++ '\x7d' :: r) =
      (readEntries reading a (es.map Entry.pair)).map (·, r) := by
  rw [taken, map]
  cases es with
  | nil =>
    obtain ⟨b, bound, hbound⟩ := List.exists_cons_of_ne_nil
      (List.append_ne_nil_of_right_ne_nil l (List.cons_ne_nil '\x7d' r))
    have hclosing := entries_closing entry hl b bound true a r
    rw [← hbound] at hclosing
    rw [List.map_nil, List.intercalate_nil, List.append_nil, hclosing]
    rfl
  | cons e es =>
    obtain ⟨he, hes⟩ := List.forall_mem_cons.1 hes
    obtain ⟨body, hbody, -⟩ := he.1.key.exists_body
    have hends := endsValue_entries (es.map Entry.all) r
    have hfirst := taken_entry (h a) he isSpaces_nil hends
    rw [hbody, List.nil_append, List.cons_append, List.cons_append] at hfirst
    have htext : l ++ [','].intercalate ((e :: es).map Entry.all) ++ '\x7d' :: r =
        l ++ (e.before ++ ('"' :: (body ++ (e.behind ++ ':' :: e.element.all) ++
          ((es.map Entry.all).flatMap (',' :: ·) ++ '\x7d' :: r)))) := by
      simp only [List.map_cons, Skipping.intercalate_comma, Entry.all, hbody, List.append_assoc,
        List.cons_append]
    have hdrop := congrArg dropSpace htext
    rw [dropSpace_append hl, dropSpace_append he.1.before, dropSpace_cons (by decide)] at hdrop
    obtain ⟨b, bound, hbound⟩ := List.exists_cons_of_ne_nil
      (List.append_ne_nil_of_right_ne_nil (l ++ [','].intercalate ((e :: es).map Entry.all))
        (List.cons_ne_nil '\x7d' r))
    have hlength : es.length < bound.length := by
      have hitems := length_le_flatMap (es.map Entry.all)
      have hwhole := congrArg List.length (hbound.symm.trans htext)
      simp only [List.length_append, List.length_cons, List.length_map] at hitems hwhole
      omega
    have hrun := entries_first entry hdrop (by decide) b bound a
    rw [← hbound] at hrun
    rw [hrun, hfirst, List.map_cons, readEntries, Entry.pair]
    cases (e.key.bind fun k => reading a k e.element.value) with
    | none => rfl
    | some a => exact toOption_entries h hes he.1.element.2 hlength a r

end Objects

end SchemaTypings.Json
