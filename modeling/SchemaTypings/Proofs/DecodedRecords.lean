import SchemaTypings.Proofs.DecodedValues

namespace SchemaTypings.Json

section Brackets

variable {s : List Char}

theorem Value.Written.exists_entries {es : List (Option String × Value)}
    (h : (Value.object es).Written s) : ∃ m, ∃ ws : List Entry, IsSpaces m ∧ (∀ e ∈ ws, e.IsWritten) ∧
      es = ws.map Entry.pair ∧
      s = '\x7b' :: (m ++ [','].intercalate (ws.map Entry.all) ++ ['\x7d']) := by
  cases h with
  | @object ws m hm hspaced h => exact ⟨m, ws, hm, fun e he => ⟨hspaced e he, h e he⟩, rfl, rfl⟩

theorem Value.Written.exists_elements {vs : List Value} (h : (Value.array vs).Written s) :
    ∃ m, ∃ ws : List Element, IsSpaces m ∧ (∀ e ∈ ws, e.IsWritten) ∧ vs = ws.map Element.value ∧
      s = '[' :: (m ++ [','].intercalate (ws.map Element.all) ++ [']']) := by
  cases h with
  | @array ws m hm hspaced h => exact ⟨m, ws, hm, fun e he => ⟨hspaced e he, h e he⟩, rfl, rfl⟩

end Brackets

section Objects

variable {σ : Type} {entry : σ → String → Decoder σ} {reading : σ → String → Value → Option σ}

theorem taken_map_behindHead {es : List (Option String × Value)} {s : List Char}
    (h : ∀ a k, DecodesEntry (entry a k) (reading a k)) (hs : (Value.object es).Written s) (a : σ)
    (r : List Char) :
    taken (map entry a) ((Value.object es).behindHead s r) =
      (readEntries reading a es).map (·, r) := by
  obtain ⟨m, ws, hm, hws, rfl, rfl⟩ := hs.exists_entries
  rw [Value.behindHead, List.cons_append, List.tail_cons, List.append_assoc, List.singleton_append]
  exact taken_map h hws hm a r

theorem taken_elements_behindHead {readers : List (σ → Decoder σ)}
    {readings : List (σ → Value → Option σ)} {vs : List Value} {s : List Char}
    (h : List.Forall₂ (fun p f => ∀ a, Decodes (p a) (f a)) readers readings)
    (hs : (Value.array vs).Written s) (a : σ) (r : List Char) :
    taken (elements readers true a) ((Value.array vs).behindHead s r) =
      (readElements readings a vs).map (·, r) := by
  obtain ⟨m, ws, hm, hws, rfl, rfl⟩ := hs.exists_elements
  rw [Value.behindHead, List.cons_append, List.tail_cons, List.append_assoc, List.singleton_append]
  exact taken_elements h hws hm a r

def readDictionary (reading : σ → String → Value → Option σ) (a : σ) : Value → Option σ
  | .object es => readEntries reading a es
  | _ => none

theorem decodes_dictionary (h : ∀ a k, Decodes (entry a k) (reading a k)) (a : σ) :
    Decodes (dictionary entry a) (readDictionary reading a) := by
  intro v s l r hs hl hr
  rw [dictionary, taken_bind,
    taken_expect_written (refuses_number (fun _ => rfl) fun _ => rfl) hs hl]
  cases v with
  | object es => exact taken_map_behindHead (fun a k => (h a k).behindColon) hs a r
  | string t => cases t <;> rfl
  | _ => rfl

end Objects

section Records

variable {σ ι : Type}

def RecordField.keys (f : RecordField σ) : List String :=
  f.main :: f.aliases

theorem hasName_iff {f : RecordField σ} {k : String} : f.hasName k = true ↔ k ∈ f.keys := by
  rw [RecordField.hasName, Bool.or_eq_true, beq_iff_eq, List.contains_iff_mem, RecordField.keys,
    List.mem_cons, eq_comm]

/-- How the fields of a record are read: the field of each option, and what it makes of a value. No
key names two of them. -/
structure FieldReadings (σ ι : Type) where
  options : List ι
  complete : ∀ i, i ∈ options
  field : ι → RecordField σ
  eq_of_key : ∀ {i j k}, k ∈ (field i).keys → k ∈ (field j).keys → i = j
  reading : ι → σ → Value → Option σ
  decodes : ∀ i a, Decodes ((field i).read a) (reading i a)

namespace FieldReadings

variable (R : FieldReadings σ ι)

def fields : List (RecordField σ) :=
  R.options.map R.field

def named? (k : String) : Option ι :=
  R.options.find? fun i => (R.field i).hasName k

variable {R} in
theorem named?_eq_some_iff {k : String} {i : ι} : R.named? k = some i ↔ k ∈ (R.field i).keys := by
  constructor
  · exact fun h => hasName_iff.1 (List.find?_some (p := fun i => (R.field i).hasName k) h)
  · intro h
    have hsome : (R.named? k).isSome = true :=
      List.find?_isSome.2 ⟨i, R.complete i, hasName_iff.2 h⟩
    obtain ⟨j, hj⟩ := Option.isSome_iff_exists.1 hsome
    have hkey := hasName_iff.1 (List.find?_some (p := fun i => (R.field i).hasName k) hj)
    rw [hj, R.eq_of_key hkey h]

variable {R} in
theorem named?_eq_none_iff {k : String} : R.named? k = none ↔ ∀ i, k ∉ (R.field i).keys := by
  simp only [Option.eq_none_iff_forall_ne_some, ne_eq, named?_eq_some_iff]

theorem eq_of_main {i j : ι} (h : (R.field i).main = (R.field j).main) : i = j :=
  R.eq_of_key (List.mem_cons_self ..) (h ▸ List.mem_cons_self ..)

/-- What is made of an entry. A repeated option is refused. -/
def readEntry (a : List String × σ) (k : String) (v : Value) : Option (List String × σ) :=
  match R.named? k with
  | none => some a
  | some i =>
    if (R.field i).main ∈ a.1 then none
    else (R.reading i a.2 v).map ((R.field i).main :: a.1, ·)

def read (a : σ) : Value → Option σ
  | .array vs => readElements (R.options.map R.reading) a vs
  | .object es => (readEntries R.readEntry ([], a) es).map (·.2)
  | _ => none

theorem find?_fields (k : String) :
    R.fields.find? (RecordField.hasName k) = (R.named? k).map R.field :=
  List.find?_map ..

theorem decodesEntry (a : List String × σ) (k : String) :
    DecodesEntry (recordEntry R.fields a k) (R.readEntry a k) := by
  intro v s m l r hs hm hl hr
  have hcolon : ∀ t, taken (punctuation ':') (m ++ ':' :: t) = some ((), t) :=
    taken_punctuation hm (by decide)
  rw [recordEntry, readEntry, find?_fields]
  cases R.named? k with
  | none =>
    simp only [Option.map_none, taken_bind, hcolon, Option.bind_some, decodes_skipValue hs hl hr]
    rfl
  | some i =>
    rw [Option.map_some]
    by_cases hseen : (R.field i).main ∈ a.1
    · have hcontains : a.1.contains (R.field i).main = true := List.contains_iff_mem.2 hseen
      simp only [hcontains, hseen, ↓reduceIte, taken_bind, taken_throw]
      rfl
    · have hcontains : ¬a.1.contains (R.field i).main = true := mt List.contains_iff_mem.1 hseen
      simp only [hcontains, hseen, ↓reduceIte, Bool.false_eq_true, taken_bind, hcolon,
        Option.bind_some, R.decodes i a.2 hs hl hr]
      cases R.reading i a.2 v <;> rfl

theorem decodes_record (wanted : String) (a : σ) :
    Decodes (record wanted R.fields a) (R.read a) := by
  intro v s l r hs hl hr
  rw [record, taken_bind,
    taken_expect_written (refuses_number (fun _ => rfl) fun _ => rfl) hs hl]
  cases v with
  | array vs =>
    have hreaders : List.Forall₂ (fun p f => ∀ a, Decodes (p a) (f a))
        (R.fields.map RecordField.read) (R.options.map R.reading) := by
      rw [fields, List.map_map, List.forall₂_map_left_iff, List.forall₂_map_right_iff,
        List.forall₂_same]
      exact fun i _ => R.decodes i
    exact taken_elements_behindHead hreaders hs a r
  | object es =>
    have hmap := taken_map_behindHead R.decodesEntry hs ([], a) r
    rw [Value.head?, Option.bind_some, Option.map_some, Option.bind_some, read, taken_bind, hmap,
      Option.map_map]
    cases readEntries R.readEntry ([], a) es <;> rfl
  | string t => cases t <;> rfl
  | _ => rfl

end FieldReadings

end Records

section Variants

variable {α : Type} {s l r : List Char}

def readNamed (variants : List (String × α)) (k : String) (v : Value) : Option α :=
  (variants.lookup k).bind fun a => v.nothing?.map fun _ => a

def readVariant (variants : List (String × α)) : Value → Option α
  | .string t => t.bind (variants.lookup ·)
  | .object [(k, v)] => k.bind fun k => readNamed variants k v
  | _ => none

theorem taken_variantNamed (variants : List (String × α)) (n : String) (s : List Char) :
    taken (variantNamed variants n) s = (variants.lookup n).map (·, s) := by
  rw [variantNamed]
  cases variants.lookup n <;> rfl

theorem taken_punctuation_of_ne {c d : Char} (hl : IsSpaces l) (hd : isSpace d = false) (h : d ≠ c)
    (r : List Char) : taken (punctuation c) (l ++ d :: r) = none := by
  have hdrop : dropSpace (l ++ d :: r) = d :: r := by
    rw [dropSpace_append hl, dropSpace_cons hd]
  simp only [taken, punctuation, hdrop, h, ↓reduceIte]
  rfl

def namedEntry (variants : List (String × α)) (k : String) : Decoder α := do
  let a ← variantNamed variants k
  punctuation ':'
  unit
  return a

theorem decodesEntry_named (variants : List (String × α)) (k : String) :
    DecodesEntry (namedEntry variants k) (readNamed variants k) := by
  intro v s m l r hs hm hl hr
  rw [namedEntry, readNamed, taken_bind, taken_variantNamed]
  cases variants.lookup k with
  | none => rfl
  | some a =>
    simp only [Option.map_some, Option.bind_some, taken_bind,
      taken_punctuation hm (c := ':') (by decide), decodes_unit hs hl hr]
    cases v.nothing? <;> rfl

def variantEntry (variants : List (String × α)) : Decoder α := do
  punctuation '"'
  let a ← variantNamed variants (← stringRest)
  punctuation ':'
  unit
  punctuation '\x7d'
  return a

theorem taken_variantEntry (variants : List (String × α)) (s : List Char) :
    taken (variantEntry variants) s =
      (taken (do punctuation '"'; namedEntry variants (← stringRest)) s).bind fun x =>
        (taken (punctuation '\x7d') x.2).bind fun y => some (x.1, y.2) := by
  simp only [variantEntry, namedEntry, taken_bind, Option.bind_assoc, taken_pure, Option.bind_some]

theorem taken_variantEntry_behindHead (variants : List (String × α))
    {es : List (Option String × Value)} (hs : (Value.object es).Written s) (r : List Char) :
    taken (variantEntry variants) ((Value.object es).behindHead s r) =
      (readVariant variants (.object es)).map (·, r) := by
  obtain ⟨m, ws, hm, hws, rfl, rfl⟩ := hs.exists_entries
  rw [Value.behindHead, List.cons_append, List.tail_cons, List.append_assoc, List.singleton_append]
  cases ws with
  | nil =>
    rw [List.map_nil, List.intercalate_nil, List.append_nil, variantEntry, taken_bind,
      taken_punctuation_of_ne hm (by decide) (by decide)]
    rfl
  | cons e ws =>
    obtain ⟨he, hws⟩ := List.forall_mem_cons.1 hws
    have hends := endsValue_entries (ws.map Entry.all) r
    have hentry := taken_entry (decodesEntry_named variants) he (hm.append he.1.before) hends
    have htext : m ++ [','].intercalate ((e :: ws).map Entry.all) ++ '\x7d' :: r =
        m ++ e.before ++ (e.keyText ++ (e.behind ++ ':' :: e.element.all)) ++
          ((ws.map Entry.all).flatMap (',' :: ·) ++ '\x7d' :: r) := by
      simp only [List.map_cons, Skipping.intercalate_comma, Entry.all, List.append_assoc]
    rw [htext, taken_variantEntry, hentry]
    have hend := he.1.element.2
    cases ws with
    | nil =>
      have hclosing := taken_punctuation (c := '\x7d') hend (by decide) r
      change (Option.map _ (e.key.bind fun k => readNamed variants k e.element.value)).bind _ =
        Option.map _ (e.key.bind fun k => readNamed variants k e.element.value)
      cases e.key.bind fun k => readNamed variants k e.element.value with
      | none => rfl
      | some a => exact congrArg (Option.bind · _) hclosing
    | cons e' ws =>
      have hcomma := taken_punctuation_of_ne (c := '\x7d') (d := ',') hend (by decide) (by decide)
      change (Option.map _ (e.key.bind fun k => readNamed variants k e.element.value)).bind _ = none
      cases e.key.bind fun k => readNamed variants k e.element.value with
      | none => rfl
      | some a => exact congrArg (Option.bind · _) (hcomma _)

theorem variant_string (variants : List (String × α)) {t : Option String} (h : IsQuoted t s)
    (r : List Char) :
    taken (variant variants) (s ++ r) = (t.bind (variants.lookup ·)).map (·, r) := by
  obtain ⟨body, rfl, hbody, -⟩ := h.exists_body
  have hvariant : variant variants ('"' :: (body ++ r)) =
      (do variantNamed variants (← stringRest) : Decoder α) (body ++ r) := rfl
  have hnamed : taken (do variantNamed variants (← stringRest)) (body ++ r) =
      (t.bind (variants.lookup ·)).map (·, r) := by
    rw [taken_bind, hbody]
    cases t with
    | none => rfl
    | some n => exact taken_variantNamed variants n r
  rw [List.cons_append, taken, hvariant]
  exact hnamed

theorem variant_number (variants : List (String × α)) (h : IsNumeral s) (r : List Char) :
    taken (variant variants) (s ++ r) = none := by
  obtain ⟨c, q, rfl, hc⟩ := h.exists_head
  rw [List.cons_append, taken, variant, dropSpace_cons (isSpace_of_startsNumeral hc)]
  split
  · next he => cases he
  · next he => exact absurd (List.cons.inj he).1 (ne_of_startsNumeral hc (by decide))
  · next he => exact absurd (List.cons.inj he).1 (ne_of_startsNumeral hc (by decide))
  · rfl

theorem decodes_variant (variants : List (String × α)) :
    Decodes (variant variants) (readVariant variants) := by
  intro v s l r h hl hr
  have hdrop : taken (variant variants) (l ++ (s ++ r)) = taken (variant variants) (s ++ r) := by
    have hstart := dropSpace_written h isSpaces_nil r
    rw [List.nil_append] at hstart
    rw [taken, taken, variant, variant, dropSpace_written h hl, hstart]
  rw [hdrop]
  cases v with
  | null | boolean | array => cases h <;> rfl
  | number =>
    cases h with
    | number h => exact variant_number variants h r
  | string t =>
    cases h with
    | string h => exact variant_string variants h r
  | object es =>
    have hentry := taken_variantEntry_behindHead variants h r
    obtain ⟨m, ws, -, -, -, rfl⟩ := h.exists_entries
    exact hentry

end Variants

/-- A whole text of a value is decoded to what is made of the value. -/
theorem toOption_decode {α : Type} {p : Decoder α} {reading : Value → Option α} (h : Decodes p reading)
    {v : Value} {text : String} (hv : v.IsTextOf text) :
    (decode p text).toOption = reading v := by
  obtain ⟨l, s, r, hl, hs, hr, htext⟩ := hv
  have hends : EndsValue r := List.append_nil r ▸ endsValue_nil.append hr
  have htaken := h hs hl hends
  have hdrop : dropSpace r = [] := List.append_nil r ▸ dropSpace_append hr []
  rw [taken] at htaken
  rw [decode, htext]
  cases hp : p (l ++ (s ++ r)) with
  | error f =>
    rw [hp] at htaken
    exact (Option.map_eq_none_iff.1 htaken.symm).symm
  | ok x =>
    rw [hp] at htaken
    obtain ⟨a, ha, rfl⟩ := Option.map_eq_some_iff.1 htaken.symm
    simp only [hdrop, ha]
    rfl

end SchemaTypings.Json
