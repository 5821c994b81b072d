namespace SchemaTypings.Text

/-- The lines of a text. A line feed ends a line, together with one carriage return before it;
what follows the last line feed is a line unless it is empty. -/
def lines : List Char → List (List Char)
  | [] => []
  | '\n' :: r => [] :: lines r
  | '\r' :: '\n' :: r => [] :: lines r
  | c :: r =>
    match lines r with
    | [] => [[c]]
    | l :: ls => (c :: l) :: ls

def indentContinuation (s : String) : String :=
  String.ofList (s.toList.flatMap fun c => if c = '\n' then ['\n', '\t'] else [c])

end SchemaTypings.Text
