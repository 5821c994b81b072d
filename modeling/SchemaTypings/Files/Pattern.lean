namespace SchemaTypings.Files

inductive PatternFault where
  | stars
  | brokenRecursion
  | openBracket
deriving DecidableEq

structure PatternError where
  position : Nat
  fault : PatternFault
deriving DecidableEq

def PatternFault.message : PatternFault → String
  | stars => "wildcards are either regular `*` or recursive `**`"
  | brokenRecursion => "recursive wildcards must form a single path component"
  | openBracket => "invalid range pattern"

def PatternError.message (e : PatternError) : String :=
  "Pattern syntax error near position " ++ toString e.position ++ ": " ++ e.fault.message

inductive Wildcard where
  | char (c : Char)
  | anyChar
  | oneOf (negated : Bool) (spans : List (Char × Char))
  | anyChars
  | anyDirectories
deriving DecidableEq

def spans : List Char → List (Char × Char)
  | a :: '-' :: b :: r => (a, b) :: spans r
  | a :: r => (a, a) :: spans r
  | [] => []

/-- The characters of a bracket that is open, and what follows it. The first character does not
close it. -/
def closeBracket : List Char → Option (List Char × List Char)
  | [] => none
  | c :: r =>
    if r.contains ']' then
      some (c :: r.takeWhile (· ≠ ']'), (r.dropWhile (· ≠ ']')).drop 1)
    else none

theorem length_closeBracket {s inner rest : List Char} (h : closeBracket s = some (inner, rest)) :
    rest.length < s.length := by
  cases s with
  | nil => simp [closeBracket] at h
  | cons c r =>
    simp only [closeBracket] at h
    split at h
    · simp only [Option.some.injEq, Prod.mk.injEq] at h
      rw [← h.2]
      have hd : (r.dropWhile (· ≠ ']')).length ≤ r.length :=
        (List.dropWhile_suffix _).sublist.length_le
      simp only [List.length_drop, List.length_cons]
      omega
    · cases h

/-- The wildcards of a pattern; `i` characters come before, the last of which is `previous`. -/
def wildcardsFrom (i : Nat) (previous : Option Char) (s : List Char) :
    Except PatternError (List Wildcard) :=
  match s with
  | [] => .ok []
  | '?' :: r => (wildcardsFrom (i + 1) (some '?') r).map (.anyChar :: ·)
  | '*' :: '*' :: '*' :: _ => .error ⟨i + 2, .stars⟩
  | '*' :: '*' :: r =>
    if previous = none ∨ previous = some '/' then
      match r with
      | [] => .ok [.anyDirectories]
      | '/' :: r => (wildcardsFrom (i + 3) (some '/') r).map (.anyDirectories :: ·)
      | _ => .error ⟨i + 2, .brokenRecursion⟩
    else .error ⟨i - 1, .brokenRecursion⟩
  | '*' :: r => (wildcardsFrom (i + 1) (some '*') r).map (.anyChars :: ·)
  | '[' :: '!' :: r =>
    match _h : closeBracket r with
    | none => .error ⟨i, .openBracket⟩
    | some (inner, rest) =>
      (wildcardsFrom (i + inner.length + 3) (some ']') rest).map (.oneOf true (spans inner) :: ·)
  | '[' :: r =>
    match _h : closeBracket r with
    | none => .error ⟨i, .openBracket⟩
    | some (inner, rest) =>
      (wildcardsFrom (i + inner.length + 2) (some ']') rest).map (.oneOf false (spans inner) :: ·)
  | c :: r => (wildcardsFrom (i + 1) (some c) r).map (.char c :: ·)
termination_by s.length
decreasing_by
  all_goals simp only [List.length_cons]
  any_goals have h := length_closeBracket _h
  all_goals omega

def wildcards (pattern : String) : Except PatternError (List Wildcard) :=
  wildcardsFrom 0 none pattern.toList

def Wildcard.accepts (c : Char) : Wildcard → Bool
  | char d => c == d
  | anyChar => true
  | oneOf negated spans => negated != spans.any fun s => s.1 ≤ c && c ≤ s.2
  | anyChars | anyDirectories => false

def spread : List Bool → List Bool
  | [] => []
  | b :: r =>
    match spread r with
    | [] => [b]
    | c :: l => (b || c) :: c :: l

theorem spread_cons (b : Bool) (l : List Bool) :
    spread (b :: l) = (b || (spread l).head?.getD false) :: spread l := by
  cases h : spread l <;> simp [spread, h]

/-- Whether wildcards match each of the tails of a name, from the whole name to the empty one. -/
def tailMatches : List Wildcard → List Char → List Bool
  | [], s => s.map (fun _ => false) ++ [true]
  | .anyChars :: ws, s | .anyDirectories :: ws, s => spread (tailMatches ws s)
  | w :: ws, s =>
    s.zipWith (fun c later => w.accepts c && later) (tailMatches ws s).tail ++ [false]

def matchesName (ws : List Wildcard) (s : List Char) : Bool :=
  (tailMatches ws s).head?.getD false

theorem tailMatches_ne_nil (ws : List Wildcard) (s : List Char) : tailMatches ws s ≠ [] := by
  induction ws with
  | nil => simp [tailMatches]
  | cons w ws ih =>
    obtain ⟨b, l, hl⟩ := List.exists_cons_of_ne_nil ih
    cases w <;> simp [tailMatches, hl, spread_cons]

theorem tailMatches_cons (ws : List Wildcard) (c : Char) (r : List Char) :
    tailMatches ws (c :: r) = matchesName ws (c :: r) :: tailMatches ws r := by
  have h : ∃ b, tailMatches ws (c :: r) = b :: tailMatches ws r := by
    induction ws with
    | nil => exact ⟨false, rfl⟩
    | cons w ws ih =>
      obtain ⟨b, hb⟩ := ih
      obtain ⟨d, l, hl⟩ := List.exists_cons_of_ne_nil (tailMatches_ne_nil ws r)
      cases w <;> simp [tailMatches, hb, hl, spread_cons]
  obtain ⟨b, hb⟩ := h
  simp [matchesName, hb]

theorem matchesName_nil (s : List Char) : matchesName [] s = s.isEmpty := by
  cases s <;> rfl

theorem matchesName_cons_cons {w : Wildcard} (hc : w ≠ .anyChars) (hd : w ≠ .anyDirectories)
    (ws : List Wildcard) (c : Char) (r : List Char) :
    matchesName (w :: ws) (c :: r) = (w.accepts c && matchesName ws r) := by
  obtain ⟨b, l, hl⟩ := List.exists_cons_of_ne_nil (tailMatches_ne_nil ws r)
  have ht : (tailMatches ws (c :: r)).tail = b :: l := by rw [tailMatches_cons, List.tail_cons, hl]
  cases w with
  | anyChars => exact absurd rfl hc
  | anyDirectories => exact absurd rfl hd
  | _ => simp [matchesName, tailMatches, ht, hl]

inductive Step where
  | entry (name : List Char)
  | anywhere
  | matching (wildcards : List Wildcard)

def literal? : List Wildcard → Option (List Char)
  | [] => some []
  | .char c :: ws => (literal? ws).map (c :: ·)
  | _ => none

def Step.ofWildcards (ws : List Wildcard) : Step :=
  match literal? ws with
  | some n => .entry n
  | none => if ws.contains .anyDirectories then .anywhere else .matching ws

def Step.accepts (n : List Char) : Step → Bool
  | entry m => n == m
  | anywhere => true
  | matching ws => matchesName ws n

/-- A pattern that matches just the given path: each wildcard character is put between brackets. -/
def escapePattern (path : String) : String :=
  String.ofList (path.toList.flatMap fun c =>
    if c = '?' ∨ c = '*' ∨ c = '[' ∨ c = ']' then ['[', c, ']'] else [c])

end SchemaTypings.Files
