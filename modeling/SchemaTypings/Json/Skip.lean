import SchemaTypings.Json.Lexical

namespace SchemaTypings.Json

inductive Bracket where
  | square | curly
deriving DecidableEq

def Bracket.closing : Bracket → Char
  | square => ']'
  | curly => '}'

inductive Next where
  | value | entry | behind
deriving DecidableEq

def Bracket.item : Bracket → Next
  | square => .value
  | curly => .entry

/-- A numeral that is passed over is malformed also where the text ends in it. -/
def skipNumeral (negative : Bool) : Decoder Unit := do
  let _ ← numeralRest .malformed negative

def skipWord (s : List Char) : Except Fault (Option Bracket × List Char) :=
  let plain := Except.map fun (p : Unit × List Char) => (none, p.2)
  match s with
  | [] => .error .ended
  | 'n' :: r => plain (exactly ['u', 'l', 'l'] r)
  | 't' :: r => plain (exactly ['r', 'u', 'e'] r)
  | 'f' :: r => plain (exactly ['a', 'l', 's', 'e'] r)
  | '"' :: r => plain (skipString r)
  | '[' :: r => .ok (some .square, r)
  | '{' :: r => .ok (some .curly, r)
  | '-' :: r => plain (skipNumeral true r)
  | c :: r => if c.isDigit then plain (skipNumeral false (c :: r)) else .error .malformed

def skipKey : Decoder Unit := do
  punctuation '"'
  skipString
  punctuation ':'

/-- Passes over what comes next and everything up to the end of the outermost bracket, in at most one
step for each character of `bound`. -/
def skipOver (bound : List Char) (next : Next) (brackets : List Bracket) (s : List Char) :
    Except Fault (List Char) :=
  match bound, next, brackets with
  | _, .behind, [] => .ok s
  | [], _, _ => .error .ended
  | _ :: bound, .behind, b :: bs =>
    match dropSpace s with
    | [] => .error .ended
    | c :: r =>
      if c = ',' then skipOver bound b.item (b :: bs) r
      else if c = b.closing then skipOver bound .behind bs r
      else .error .malformed
  | _ :: bound, .entry, bs =>
    match skipKey s with
    | .error f => .error f
    | .ok (_, r) => skipOver bound .value bs r
  | _ :: bound, .value, bs =>
    match skipWord (dropSpace s) with
    | .error f => .error f
    | .ok (none, r) => skipOver bound .behind bs r
    | .ok (some b, r) =>
      match dropSpace r with
      | [] => .error .ended
      | c :: r =>
        if c = b.closing then skipOver bound .behind bs r
        else skipOver bound b.item (b :: bs) (c :: r)

/-- Each step takes at least one character off, so that the text itself is bound enough. -/
def skipValue : Decoder Unit := fun s =>
  (skipOver s .value [] s).map fun r => ((), r)

end SchemaTypings.Json
