namespace SchemaTypings.Sdl

/-- The lines of a block string; a carriage return, a line feed or both in this order end one. -/
def blockLines : List Char → List (List Char)
  | [] => [[]]
  | '\r' :: '\n' :: r => [] :: blockLines r
  | c :: r =>
    if c = '\r' ∨ c = '\n' then [] :: blockLines r
    else
      match blockLines r with
      | [] => [[c]]
      | l :: ls => (c :: l) :: ls

def isIndent (c : Char) : Bool :=
  c == ' ' || c == '\t'

def isBlankLine (l : List Char) : Bool :=
  l.all isIndent

def indentOf (l : List Char) : Nat :=
  (l.takeWhile isIndent).length

def commonIndent (ls : List (List Char)) : Nat :=
  (((ls.filter fun l => !isBlankLine l).map indentOf).min?).getD 0

def dropIndent (n : Nat) (l : List Char) : List Char :=
  if n ≤ l.length then l.drop n else l

def dropBlankEnds (ls : List (List Char)) : List (List Char) :=
  ((ls.dropWhile isBlankLine).reverse.dropWhile isBlankLine).reverse

/-- The text of a block string that is written as `raw`. The first line keeps its indentation. -/
def blockText (raw : List Char) : List Char :=
  match blockLines raw with
  | [] => []
  | first :: rest =>
    ['\n'].intercalate (dropBlankEnds (first :: rest.map (dropIndent (commonIndent rest))))

end SchemaTypings.Sdl
