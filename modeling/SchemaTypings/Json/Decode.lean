import SchemaTypings.Json.Skip

namespace SchemaTypings.Json

/-- The value that comes next, as far as it is told of when another one was wanted. -/
def found : Decoder Found := fun s =>
  match s with
  | [] => .error .ended
  | 'n' :: r => (exactly ['u', 'l', 'l'] r).map fun (_, r) => (.null, r)
  | 't' :: r => (exactly ['r', 'u', 'e'] r).map fun (_, r) => (.boolean true, r)
  | 'f' :: r => (exactly ['a', 'l', 's', 'e'] r).map fun (_, r) => (.boolean false, r)
  | '"' :: r => (stringRest r).map fun (t, r) => (.string t, r)
  | '[' :: r => .ok (.sequence, r)
  | '{' :: r => .ok (.map, r)
  | '-' :: r => (numeralRest .ended true r).bind fun (n, r) => (foundNumber n).map (·, r)
  | c :: r =>
    if c.isDigit then
      (numeralRest .ended false (c :: r)).bind fun (n, r) => (foundNumber n).map (·, r)
    else .error .malformed

def expect {α : Type} (wanted : String) (accept : Found → Option α) : Decoder α := fun s =>
  match found (dropSpace s) with
  | .error f => .error f
  | .ok (v, r) =>
    match accept v with
    | some a => .ok (a, r)
    | none => .error (.mismatch (.type v wanted))

def string : Decoder String :=
  expect "a string" fun
    | .string t => some t
    | _ => none

def boolean : Decoder Bool :=
  expect "a boolean" fun
    | .boolean b => some b
    | _ => none

def unit : Decoder Unit :=
  expect "unit" fun
    | .null => some ()
    | _ => none

variable {σ : Type}

/-- The entries of an object behind its opening bracket, up to the closing one. `first` says whether
none has been read. The reader of an entry starts behind the key. There are less entries than
characters in `bound`. -/
def entries (entry : σ → String → Decoder σ) (bound : List Char) (first : Bool) (a : σ) :
    Decoder σ := fun s =>
  match bound, dropSpace s with
  | [], _ => .error .ended
  | _ :: _, [] => .error .ended
  | _ :: bound, c :: r =>
    if c = '}' then .ok (a, r)
    else if first ∨ c = ',' then
      match (do punctuation '"'; entry a (← stringRest) : Decoder σ) (if first then c :: r else r) with
      | .error f => .error f
      | .ok (a, r) => entries entry bound false a r
    else .error .malformed

def map (entry : σ → String → Decoder σ) (a : σ) : Decoder σ := fun s =>
  entries entry s true a s

/-- The elements of an array behind its opening bracket, each for the next of the given readers,
as far as there are elements. -/
def elements (readers : List (σ → Decoder σ)) (first : Bool) (a : σ) (s : List Char) :
    Except Fault (σ × List Char) :=
  match readers, dropSpace s with
  | _, [] => .error .ended
  | [], c :: r => if c = ']' then .ok (a, r) else .error .malformed
  | read :: readers, c :: r =>
    if c = ']' then .ok (a, r)
    else if first then (read a (c :: r)).bind fun (a, t) => elements readers false a t
    else if c = ',' then
      match dropSpace r with
      | [] => .error .ended
      | ']' :: _ => .error .malformed
      | r => (read a r).bind fun (a, t) => elements readers false a t
    else .error .malformed

structure RecordField (σ : Type) where
  main : String
  aliases : List String
  read : σ → Decoder σ

def RecordField.hasName (n : String) (f : RecordField σ) : Bool :=
  f.main == n || f.aliases.contains n

/-- An entry of a record. A field comes at most once; unknown keys are passed over. -/
def recordEntry (fields : List (RecordField σ)) (a : List String × σ) (key : String) :
    Decoder (List String × σ) :=
  match fields.find? (RecordField.hasName key) with
  | none => do
    punctuation ':'
    skipValue
    return a
  | some f => do
    if a.1.contains f.main then throw (.mismatch (.repeatedField f.main))
    punctuation ':'
    return (f.main :: a.1, ← f.read a.2)

/-- A record, which keeps what it starts with where a field is missing. -/
def record (wanted : String) (fields : List (RecordField σ)) (a : σ) : Decoder σ := do
  match ← expect wanted (fun
      | .sequence => some true
      | .map => some false
      | _ => none) with
  | true => elements (fields.map (·.read)) true a
  | false => do return (← map (recordEntry fields) ([], a)).2

def dictionary (entry : σ → String → Decoder σ) (a : σ) : Decoder σ := do
  expect "a map" fun
    | .map => some ()
    | _ => none
  map (fun a key => do punctuation ':'; entry a key) a

def variantNamed {α : Type} (variants : List (String × α)) (n : String) : Decoder α :=
  match variants.lookup n with
  | some a => pure a
  | none => throw (.mismatch (.variant n (variants.map (·.1))))

/-- One of several names, alone or as the key of an object that holds a null. -/
def variant {α : Type} (variants : List (String × α)) : Decoder α := fun s =>
  match dropSpace s with
  | [] => .error .ended
  | '"' :: r => (do variantNamed variants (← stringRest) : Decoder α) r
  | '{' :: r =>
    (do
      punctuation '"'
      let a ← variantNamed variants (← stringRest)
      punctuation ':'
      unit
      punctuation '}'
      return a : Decoder α) r
  | _ => .error .malformed

def decode {α : Type} (p : Decoder α) (text : String) : Except Fault α :=
  match p text.toList with
  | .error f => .error f
  | .ok (a, r) => if (dropSpace r).isEmpty then .ok a else .error .malformed

end SchemaTypings.Json
