import SchemaTypings.Json.Fault
import SchemaTypings.Number.Numeral
import SchemaTypings.Number.Shortest
import SchemaTypings.Text.Escape

namespace SchemaTypings.Json

open Number (Numeral leadingDigits ofDigits signed)

abbrev Decoder := StateT (List Char) (Except Fault)

def isSpace (c : Char) : Bool :=
  c == ' ' || c == '\n' || c == '\t' || c == '\r'

def dropSpace (s : List Char) : List Char :=
  s.dropWhile isSpace

def punctuation (c : Char) : Decoder Unit := fun s =>
  match dropSpace s with
  | [] => .error .ended
  | d :: r => if d = c then .ok ((), r) else .error .malformed

def exactly : List Char → Decoder Unit
  | [] => pure ()
  | c :: cs => fun s =>
    match s with
    | [] => .error .ended
    | d :: r => if d = c then exactly cs r else .error .malformed

/-- Four hexadecimal digits. The text has ended if it has less than four bytes left. -/
def fourDigits : Decoder Nat := fun s =>
  match s.take 4 with
  | [a, b, c, d] =>
    match Text.hexNumber? a b c d with
    | some n => .ok (n, s.drop 4)
    | none => .error .malformed
  | cs => .error (if (String.ofList cs).utf8ByteSize < 4 then .ended else .malformed)

def isLeading (n : Nat) : Bool := 0xD800 ≤ n && n < 0xDC00

def isTrailing (n : Nat) : Bool := 0xDC00 ≤ n && n < 0xE000

def escapedCode : Decoder Char := do
  let n ← fourDigits
  if isTrailing n then throw .malformed
  if !isLeading n then return Char.ofNat n
  exactly ['\\', 'u']
  let m ← fourDigits
  if !isTrailing m then throw .malformed
  return Char.ofNat (0x10000 + (n - 0xD800) * 0x400 + (m - 0xDC00))

def escape : Decoder Char := fun s =>
  match s with
  | [] => .error .ended
  | 'u' :: r => escapedCode r
  | c :: r =>
    match Text.escapedLetter? c with
    | some x => .ok (x, r)
    | none => .error .malformed

/-- An escape in a string that is skipped; surrogates may stand alone there. -/
def skippedEscape : Decoder Char := fun s =>
  match s with
  | 'u' :: r => (fourDigits r).map fun (_, r) => ('u', r)
  | s => escape s

/-- A string behind its opening quote, with the given reader of escapes. It has at most one
character for each of `bound`, and the text itself is bound enough. -/
def stringWith (escape : Decoder Char) :
    (bound : List Char) → List Char → Except Fault (List Char × List Char)
  | [], _ => .error .ended
  | _ :: _, [] => .error .ended
  | _ :: _, '"' :: r => .ok ([], r)
  | _ :: bound, '\\' :: r =>
    match escape r with
    | .error f => .error f
    | .ok (x, t) => (stringWith escape bound t).map fun p => (x :: p.1, p.2)
  | _ :: bound, c :: r =>
    if c < ' ' then .error .malformed
    else (stringWith escape bound r).map fun p => (c :: p.1, p.2)

def stringRest : Decoder String := fun s =>
  (stringWith escape s s).map fun p => (String.ofList p.1, p.2)

def skipString : Decoder Unit := fun s =>
  (stringWith skippedEscape s s).map fun p => ((), p.2)

def digits (atEnd : Fault) : Decoder (List Nat) := fun s =>
  match leadingDigits s with
  | ([], []) => .error atEnd
  | ([], _) => .error .malformed
  | p => .ok p

def wholeDigits (atEnd : Fault) : Decoder (List Nat) := fun s =>
  match s with
  | '0' :: d :: r => if d.isDigit then .error .malformed else .ok ([0], d :: r)
  | s => digits atEnd s

def fraction (atEnd : Fault) : Decoder (Option (List Nat)) := fun s =>
  match s with
  | '.' :: r => (digits atEnd r).map fun (ds, t) => (some ds, t)
  | s => .ok (none, s)

def sign : Decoder Bool := fun s =>
  match s with
  | '-' :: r => .ok (true, r)
  | '+' :: r => .ok (false, r)
  | s => .ok (false, s)

def exponentRest (atEnd : Fault) : Decoder (Option Int) := do
  let negative ← sign
  return some (signed negative (← digits atEnd))

def exponent (atEnd : Fault) : Decoder (Option Int) := fun s =>
  match s with
  | 'e' :: r => exponentRest atEnd r
  | 'E' :: r => exponentRest atEnd r
  | s => .ok (none, s)

def numeralRest (atEnd : Fault) (negative : Bool) : Decoder Numeral := do
  let whole ← wholeDigits atEnd
  let fraction ← fraction atEnd
  let exponent ← exponent atEnd
  return { negative, whole, fraction, exponent }

/-- The integer that a numeral without point and exponent stands for, if it fits into 64 bits. A zero
with a sign is no integer. -/
def integer? (n : Numeral) : Option Int :=
  let m := ofDigits n.whole
  if !n.isWhole then none
  else if n.negative then (if 0 < m ∧ m ≤ Nat.pow 2 63 then some (-(m : Int)) else none)
  else if m < Nat.pow 2 64 then some m
  else none

/-- What a numeral stands for; a number out of range is no number. -/
def foundNumber (n : Numeral) : Except Fault Found :=
  match integer? n with
  | some i => .ok (.integer i)
  | none =>
    match n.magnitude with
    | some d => .ok (.float (Number.floatText n.negative d))
    | none => .error .malformed

end SchemaTypings.Json
