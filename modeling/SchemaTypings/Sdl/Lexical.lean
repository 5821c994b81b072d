import SchemaTypings.Number.Numeral
import SchemaTypings.Schema.TypeRef
import SchemaTypings.Sdl.Reader
import SchemaTypings.Sdl.BlockString
import SchemaTypings.Text.Escape

namespace SchemaTypings.Sdl

open Number (Numeral leadingDigits signed)

def isLineEnd (c : Char) : Bool :=
  c == '\n' || c == '\r'

def isIgnored (c : Char) : Bool :=
  c == ' ' || c == ',' || c == '\t' || c == '\ufeff' || isLineEnd c

/-- Passes over ignored characters and comments; `comment` says whether a comment is open. -/
def dropIgnored (comment : Bool) : List Char → List Char
  | [] => []
  | c :: r =>
    if comment then dropIgnored (!isLineEnd c) r
    else if isIgnored c then dropIgnored false r
    else if c = '#' then dropIgnored true r
    else c :: r

def skip : Reader Unit := fun s => some ((), dropIgnored false s)

def word {α : Type} (p : Reader α) : Reader α := do
  let a ← p
  skip
  return a

/-- A keyword needs no boundary behind it. -/
def keyword (w : String) : Reader Unit :=
  word (Reader.literal w.toList)

def symbol (c : Char) : Reader Unit :=
  word (Reader.literal [c])

def isNameStart (c : Char) : Bool :=
  c.isAlpha || c == '_'

def isNameChar (c : Char) : Bool :=
  c.isAlphanum || c == '_'

def bareName : Reader String
  | c :: r =>
    if isNameStart c then
      some (String.ofList (c :: r.takeWhile isNameChar), r.dropWhile isNameChar)
    else none
  | [] => none

def name : Reader String :=
  word bareName

def markRequired (t : TypeRef) : List Char → TypeRef × List Char
  | '!' :: r => (t.required, r)
  | r => (t, r)

/-- A reference has no ignored characters inside. -/
def bareType : List Char → Option (TypeRef × List Char)
  | '[' :: r =>
    match bareType r with
    | some (t, ']' :: r) => some (markRequired (.list t) r)
    | _ => none
  | s => (bareName s).map fun (n, r) => markRequired (.named n) r

def typeRef : Reader TypeRef :=
  word bareType

/-- The character of an escape by code point, which surrogates do not have. -/
def codePoint? (a b c d : Char) : Option Char := do
  let n ← Text.hexNumber? a b c d
  if n.isValidChar then some (Char.ofNat n) else none

def consFirst (c : Char) (p : List Char × List Char) : List Char × List Char :=
  (c :: p.1, p.2)

def quotedRest : List Char → Option (List Char × List Char)
  | [] => none
  | '"' :: r => some ([], r)
  | '\\' :: 'u' :: a :: b :: c :: d :: r =>
    (codePoint? a b c d).bind fun x => (quotedRest r).map (consFirst x)
  | '\\' :: c :: r => (Text.escapedLetter? c).bind fun x => (quotedRest r).map (consFirst x)
  | c :: r => if isLineEnd c ∨ c = '\\' then none else (quotedRest r).map (consFirst c)

def blockRest : List Char → Option (List Char × List Char)
  | [] => none
  | '"' :: '"' :: '"' :: r => some ([], r)
  | '\\' :: '"' :: '"' :: '"' :: r =>
    (blockRest r).map fun p => ('\\' :: '"' :: '"' :: '"' :: p.1, p.2)
  | c :: r => (blockRest r).map (consFirst c)

def blockString : Reader String
  | '"' :: '"' :: '"' :: r => (blockRest r).map fun p => (String.ofList (blockText p.1), p.2)
  | _ => none

def quotedString : Reader String
  | '"' :: r => (quotedRest r).map fun p => (String.ofList p.1, p.2)
  | _ => none

/-- Three quotes that do not open a block string are an empty string and one more quote. -/
def text : Reader String :=
  word (blockString <|> quotedString)

def digits : Reader (List Nat) := fun s =>
  match leadingDigits s with
  | ([], _) => none
  | p => some p

def wholeDigits : Reader (List Nat)
  | '0' :: r => some ([0], r)
  | s => digits s

def fractionDigits : Reader (List Nat) := do
  Reader.literal ['.']
  digits

def exponentValue : Reader Int := do
  Reader.literal ['e'] <|> Reader.literal ['E']
  let negative ← (Reader.literal ['-'] *> pure true) <|> (Reader.literal ['+'] *> pure false) <|>
    pure false
  return signed negative (← digits)

def endsNumeral : Reader Unit
  | [] => some ((), [])
  | c :: r => if isNameStart c then none else some ((), c :: r)

def numeral : Reader Numeral := word do
  let negative ← (Reader.literal ['-'] *> pure true) <|> pure false
  let whole ← wholeDigits
  let fraction ← optional fractionDigits
  let exponent ← optional exponentValue
  endsNumeral
  return { negative, whole, fraction, exponent }

end SchemaTypings.Sdl
