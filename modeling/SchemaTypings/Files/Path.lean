namespace SchemaTypings.Files

def splitSlashes : List Char → List (List Char)
  | [] => [[]]
  | '/' :: r => [] :: splitSlashes r
  | c :: r =>
    match splitSlashes r with
    | [] => [[c]]
    | p :: ps => (c :: p) :: ps

def parts (path : String) : List String :=
  (splitSlashes path.toList).map String.ofList

def partsBeforeEnd (path : String) : List String :=
  let ps := parts path
  if ps.getLast? = some "" then ps.dropLast else ps

def fileName (path : String) : String :=
  (parts path).getLast?.getD ""

def isAbsolute (path : String) : Bool :=
  path.toList.head? == some '/'

def behindRoot (path : String) : String :=
  if isAbsolute path then String.ofList path.toList.tail else path

/-- What tells two paths apart. Empty parts do not count, and neither does a dot unless it comes
first. -/
def components (path : String) : List String :=
  match parts path with
  | [] => []
  | p :: ps =>
    let rest := ps.filter fun q => q ≠ "" ∧ q ≠ "."
    if p = "" then (if ps = [] then [] else "/" :: rest) else p :: rest

def isHere (path : String) : Bool :=
  components path == ["."]

def join (path part : String) : String :=
  if path.toList.getLast? = some '/' then path ++ part else path ++ "/" ++ part

theorem utf8ByteSize_lt_join {part : String} (h : part ≠ "") (path : String) :
    path.utf8ByteSize < (join path part).utf8ByteSize := by
  have hpart : 0 < part.utf8ByteSize :=
    Nat.pos_of_ne_zero (mt String.utf8ByteSize_eq_zero_iff.1 h)
  rw [join]
  split <;> simp only [String.utf8ByteSize_append] <;> omega

/-- The path of a part of a directory. A path from here is written without a dot. -/
def inside (path part : String) : String :=
  if isHere path then part else join path part

def dropHere : List Char → List Char
  | '.' :: '/' :: r => dropHere r
  | s => s

end SchemaTypings.Files
