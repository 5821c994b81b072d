import SchemaTypings.Text.Blank
import SchemaTypings.Text.Lines
import SchemaTypings.Text.Replace

namespace SchemaTypings.TypeScript

open Text

/-- Keeps a text from ending the comment that it stands in. -/
def escapeTerminator (s : List Char) : List Char :=
  replacePair '*' '/' ['*', '\\', '/'] s

def commentLine (l : List Char) : List Char :=
  match trimEnd l with
  | [] => [' ', '*', '\n']
  | t => [' ', '*', ' '] ++ t ++ ['\n']

def commentAround (t : List Char) : List Char :=
  if t.contains '\n' then
    ['/', '*', '*', '\n'] ++ (lines t).flatMap commentLine ++ [' ', '*', '/', '\n']
  else ['/', '*', '*', ' '] ++ t ++ [' ', '*', '/', '\n']

/-- The doc comment for a description, on lines of its own. A blank description has none. -/
def docComment : Option String → String
  | none => ""
  | some d =>
    match trim d.toList with
    | [] => ""
    | t => String.ofList (commentAround (escapeTerminator t))

end SchemaTypings.TypeScript
