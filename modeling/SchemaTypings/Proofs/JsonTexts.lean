import Mathlib.Data.List.Forall2
import SchemaTypings.Json.Lexical

namespace SchemaTypings.Json

def IsSpaces (s : List Char) : Prop :=
  ∀ c ∈ s, isSpace c = true

def IsDigits (s : List Char) : Prop :=
  s ≠ [] ∧ ∀ c ∈ s, c.isDigit = true

def IsWhole (s : List Char) : Prop :=
  s = ['0'] ∨ IsDigits s ∧ s.head? ≠ some '0'

def IsFraction (s : List Char) : Prop :=
  s = [] ∨ ∃ ds, IsDigits ds ∧ s = '.' :: ds

def IsExponent (s : List Char) : Prop :=
  s = [] ∨ ∃ e ∈ ['e', 'E'], ∃ sign ∈ [[], ['+'], ['-']], ∃ ds, IsDigits ds ∧ s = e :: (sign ++ ds)

def IsNumeral (s : List Char) : Prop :=
  ∃ minus ∈ [[], ['-']], ∃ whole fraction exponent, IsWhole whole ∧ IsFraction fraction ∧
    IsExponent exponent ∧ s = minus ++ (whole ++ (fraction ++ exponent))

/-- What a string is made of: characters, or code units that are escaped by their numbers. -/
inductive Piece where
  | char (c : Char)
  | code (n : Nat)

inductive Piece.Written : Piece → List Char → Prop
  | plain {c : Char} (h : ¬c < ' ') (hquote : c ≠ '"') (hslash : c ≠ '\\') : Written (.char c) [c]
  | letter {c x : Char} (h : Text.escapedLetter? c = some x) : Written (.char x) ['\\', c]
  | code {a b c d : Char} {n : Nat} (h : Text.hexNumber? a b c d = some n) :
    Written (.code n) ['\\', 'u', a, b, c, d]

def pairedCode (n m : Nat) : Char :=
  Char.ofNat (0x10000 + (n - 0xD800) * 0x400 + (m - 0xDC00))

/-- The characters of a string. It has none if a surrogate in it stands without its partner. -/
def charsOf? : List Piece → Option (List Char)
  | [] => some []
  | .char c :: ps => (charsOf? ps).map (c :: ·)
  | .code n :: ps =>
    if isTrailing n then none
    else if isLeading n then
      match ps with
      | .code m :: qs => if isTrailing m then (charsOf? qs).map (pairedCode n m :: ·) else none
      | _ => none
    else (charsOf? ps).map (Char.ofNat n :: ·)

def IsQuoted (t : Option String) (s : List Char) : Prop :=
  ∃ ps ts, List.Forall₂ Piece.Written ps ts ∧ t = (charsOf? ps).map String.ofList ∧
    s = '"' :: (ts.flatten ++ ['"'])

/-- Values. Numbers are not told apart, since no option is a number. -/
inductive Value where
  | null
  | boolean (b : Bool)
  | number
  | string (text : Option String)
  | array (elements : List Value)
  | object (entries : List (Option String × Value))

structure Element where
  before : List Char
  value : Value
  text : List Char
  behind : List Char

def Element.all (e : Element) : List Char :=
  e.before ++ (e.text ++ e.behind)

structure Entry where
  before : List Char
  key : Option String
  keyText : List Char
  behind : List Char
  element : Element

def Entry.all (e : Entry) : List Char :=
  e.before ++ (e.keyText ++ (e.behind ++ ':' :: e.element.all))

def Element.IsSpaced (e : Element) : Prop :=
  IsSpaces e.before ∧ IsSpaces e.behind

structure Entry.IsSpaced (e : Entry) : Prop where
  before : IsSpaces e.before
  key : IsQuoted e.key e.keyText
  behind : IsSpaces e.behind
  element : e.element.IsSpaced

/-- The texts of a value, without blanks around them. -/
inductive Value.Written : Value → List Char → Prop
  | null : Written .null ['n', 'u', 'l', 'l']
  | yes : Written (.boolean true) ['t', 'r', 'u', 'e']
  | no : Written (.boolean false) ['f', 'a', 'l', 's', 'e']
  | number {s : List Char} (h : IsNumeral s) : Written .number s
  | string {t : Option String} {s : List Char} (h : IsQuoted t s) : Written (.string t) s
  | array {es : List Element} {l : List Char} (hl : IsSpaces l) (hspaced : ∀ e ∈ es, e.IsSpaced)
    (h : ∀ e ∈ es, Written e.value e.text) :
    Written (.array (es.map Element.value)) ('[' :: (l ++ [','].intercalate (es.map Element.all) ++ [']']))
  | object {es : List Entry} {l : List Char} (hl : IsSpaces l) (hspaced : ∀ e ∈ es, e.IsSpaced)
    (h : ∀ e ∈ es, Written e.element.value e.element.text) :
    Written (.object (es.map fun e => (e.key, e.element.value)))
      ('{' :: (l ++ [','].intercalate (es.map Entry.all) ++ ['\x7d']))

/-- A whole text may have blanks at both ends. -/
def Value.IsTextOf (v : Value) (text : String) : Prop :=
  ∃ l s r, IsSpaces l ∧ v.Written s ∧ IsSpaces r ∧ text.toList = l ++ (s ++ r)

section Ends

variable {l r s : List Char} {c : Char}

theorem dropSpace_append (h : IsSpaces l) (s : List Char) : dropSpace (l ++ s) = dropSpace s :=
  List.dropWhile_append_of_pos h

theorem dropSpace_cons (h : isSpace c = false) (r : List Char) : dropSpace (c :: r) = c :: r := by
  rw [dropSpace, List.dropWhile_cons, h]
  rfl

theorem isSpaces_nil : IsSpaces [] :=
  List.forall_mem_nil _

theorem IsSpaces.append (hl : IsSpaces l) (hr : IsSpaces r) : IsSpaces (l ++ r) :=
  List.forall_mem_append.2 ⟨hl, hr⟩

/-- A value is over here: no numeral goes on. -/
def EndsValue (r : List Char) : Prop :=
  ∀ c ∈ r.head?, isSpace c = true ∨ c ∈ [',', ']', '\x7d']

theorem endsValue_nil : EndsValue [] := fun _ h => nomatch h

theorem endsValue_cons (h : c ∈ [',', ']', '\x7d']) (r : List Char) : EndsValue (c :: r) := by
  rintro _ ⟨⟩
  exact .inr h

theorem EndsValue.append (hl : IsSpaces l) (hr : EndsValue r) : EndsValue (l ++ r) := by
  cases l with
  | nil => exact hr
  | cons c l =>
    rintro _ ⟨⟩
    exact .inl (hl c (List.mem_cons_self ..))

theorem isDigit_of_isSpace (h : isSpace c = true) : c.isDigit = false := by
  simp only [isSpace, Bool.or_eq_true, beq_iff_eq] at h
  obtain ((rfl | rfl) | rfl) | rfl := h <;> rfl

theorem IsNumeral.exists_head (h : IsNumeral s) :
    ∃ c r, s = c :: r ∧ (c = '-' ∨ c.isDigit = true) := by
  obtain ⟨minus, hminus, whole, fraction, exponent, hwhole, -, -, rfl⟩ := h
  simp only [List.mem_cons, List.not_mem_nil, or_false] at hminus
  obtain rfl | rfl := hminus
  · obtain rfl | ⟨⟨hne, hdigits⟩, -⟩ := hwhole
    · exact ⟨'0', _, rfl, .inr rfl⟩
    · obtain ⟨c, ds, rfl⟩ := List.exists_cons_of_ne_nil hne
      exact ⟨c, _, rfl, .inr (hdigits c (List.mem_cons_self ..))⟩
  · exact ⟨'-', _, rfl, .inl rfl⟩

/-- The first character of a numeral is none that stands for something else. -/
theorem ne_of_startsNumeral (h : c = '-' ∨ c.isDigit = true) {d : Char}
    (hd : d ≠ '-' ∧ d.isDigit = false) : c ≠ d := by
  rintro rfl
  obtain rfl | h := h
  · exact hd.1 rfl
  · exact absurd (h.symm.trans hd.2) (by decide)

theorem isSpace_of_startsNumeral (h : c = '-' ∨ c.isDigit = true) : isSpace c = false := by
  obtain rfl | h := h
  · rfl
  · by_contra hs
    have hdigit := isDigit_of_isSpace (Bool.not_eq_false _ ▸ hs)
    exact absurd (h.symm.trans hdigit) (by decide)

theorem Value.Written.exists_head {v : Value} (h : v.Written s) :
    ∃ c r, s = c :: r ∧ isSpace c = false ∧ c ≠ ']' ∧ c ≠ '\x7d' := by
  cases h with
  | null | yes | no | array | object => exact ⟨_, _, rfl, rfl, by decide, by decide⟩
  | number h =>
    obtain ⟨c, r, rfl, hc⟩ := h.exists_head
    exact ⟨c, r, rfl, isSpace_of_startsNumeral hc, ne_of_startsNumeral hc (by decide),
      ne_of_startsNumeral hc (by decide)⟩
  | string h =>
    obtain ⟨ps, ts, -, -, rfl⟩ := h
    exact ⟨'"', _, rfl, rfl, by decide, by decide⟩

end Ends

def IsPlain (t : String) : Prop :=
  ∀ c ∈ t.toList, ¬c < ' ' ∧ c ≠ '"' ∧ c ≠ '\\'

instance (t : String) : Decidable (IsPlain t) :=
  List.decidableBAll _ _

theorem charsOf?_map_char (s : List Char) : charsOf? (s.map .char) = some s := by
  induction s with
  | nil => rfl
  | cons c s ih => rw [List.map_cons, charsOf?, ih, Option.map_some]

theorem isQuoted_plain {t : String} (h : IsPlain t) :
    IsQuoted (some t) ('"' :: (t.toList ++ ['"'])) := by
  have hwritten : List.Forall₂ Piece.Written (t.toList.map .char) (t.toList.map fun c => [c]) := by
    rw [List.forall₂_map_left_iff, List.forall₂_map_right_iff, List.forall₂_same]
    exact fun c hc => .plain (h c hc).1 (h c hc).2.1 (h c hc).2.2
  refine ⟨t.toList.map .char, t.toList.map fun c => [c], hwritten, ?_, ?_⟩
  · rw [charsOf?_map_char, Option.map_some, String.ofList_toList]
  · rw [← List.flatMap_def, List.flatMap_singleton']

structure WrittenValue where
  value : Value
  text : List Char
  written : value.Written text

namespace WrittenValue

def string (t : String) (h : IsPlain t) : WrittenValue :=
  ⟨.string (some t), '"' :: (t.toList ++ ['"']), .string (isQuoted_plain h)⟩

def array (vs : List WrittenValue) : WrittenValue where
  value := .array ((vs.map fun v => (⟨[], v.value, v.text, []⟩ : Element)).map Element.value)
  text := _
  written := .array isSpaces_nil (List.forall_mem_map.2 fun _ _ => ⟨isSpaces_nil, isSpaces_nil⟩)
    (List.forall_mem_map.2 fun v _ => v.written)

def object (es : List ({k : String // IsPlain k} × WrittenValue)) : WrittenValue where
  value := .object ((es.map fun e => (⟨[], some e.1, '"' :: (e.1.1.toList ++ ['"']), [],
    ⟨[], e.2.value, e.2.text, []⟩⟩ : Entry)).map fun e => (e.key, e.element.value))
  text := _
  written := .object isSpaces_nil
    (List.forall_mem_map.2 fun e _ =>
      ⟨isSpaces_nil, isQuoted_plain e.1.2, isSpaces_nil, isSpaces_nil, isSpaces_nil⟩)
    (List.forall_mem_map.2 fun e _ => e.2.written)

theorem isTextOf (v : WrittenValue) {text : String} (h : v.text = text.toList) :
    v.value.IsTextOf text :=
  ⟨[], v.text, [], isSpaces_nil, v.written, isSpaces_nil,
    by rw [List.nil_append, List.append_nil, h]⟩

end WrittenValue

end SchemaTypings.Json
