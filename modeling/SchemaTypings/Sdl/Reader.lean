namespace SchemaTypings.Sdl

abbrev Reader := StateT (List Char) Option

namespace Reader

variable {α : Type}

/-- Reads for as long as the reader accepts the text, at most once for each character of `bound`. -/
def repeated (p : Reader α) : (bound : List Char) → List Char → List α × List Char
  | [], s => ([], s)
  | _ :: bound, s =>
    match p s with
    | none => ([], s)
    | some (a, r) =>
      let (as, t) := repeated p bound r
      (a :: as, t)

/-- A reader that takes something off the text whenever it accepts it is used as often as it does,
since the text itself is bound enough. -/
def many (p : Reader α) : Reader (List α) := fun s => some (repeated p s s)

def many1 (p : Reader α) : Reader (List α) := do
  let a ← p
  let as ← many p
  return a :: as

def orEmpty (p : Reader (List α)) : Reader (List α) :=
  p <|> pure []

def left : Reader Nat := fun s => some (s.length, s)

def atEnd : Reader Unit
  | [] => some ((), [])
  | _ :: _ => none

def literal (w : List Char) : Reader Unit := fun s =>
  (w.isPrefixOf? s).map fun r => ((), r)

end Reader

end SchemaTypings.Sdl
