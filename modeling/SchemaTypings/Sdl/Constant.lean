import SchemaTypings.Sdl.Lexical

namespace SchemaTypings.Sdl

open Number (Numeral)

/-- A value without brackets. A keyword that begins a longer name is taken for itself. -/
def atom : Reader (List Numeral) :=
  (do return [← numeral]) <|> (do let _ ← text; return []) <|>
    (do keyword "true" <|> keyword "false" <|> keyword "null"; return []) <|>
    (do let _ ← name; return [])

def entryName : Reader Unit := do
  let _ ← name
  symbol ':'

def between (opening closing : Char) (p : Reader (List Numeral)) : Reader (List Numeral) := do
  symbol opening
  let ns ← Reader.many p
  symbol closing
  return ns.flatten

/-- A value with less brackets around each other than `bound` is long. -/
def constantWithin : (bound : List Char) → Reader (List Numeral)
  | [] => failure
  | _ :: bound =>
    atom <|> between '[' ']' (constantWithin bound) <|>
      between '{' '}' (entryName *> constantWithin bound)

def constant : Reader (List Numeral) := fun s =>
  constantWithin s s

def defaultValue : Reader (List Numeral) := do
  symbol '='
  constant

def constantArgument : Reader (List Numeral) := do
  entryName
  constant

def constantArguments : Reader (List Numeral) := do
  symbol '('
  let ns ← Reader.many1 constantArgument
  symbol ')'
  return ns.flatten

def directive : Reader (List Numeral) := do
  symbol '@'
  let _ ← name
  Reader.orEmpty constantArguments

def directives : Reader (List Numeral) := do
  return (← Reader.many1 directive).flatten

end SchemaTypings.Sdl
