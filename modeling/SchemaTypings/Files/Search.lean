import SchemaTypings.Files.Pattern
import SchemaTypings.Files.Tree

namespace SchemaTypings.Files

/-- The steps of a pattern, one for each of its parts. The pattern has to be right as a whole, and
so has every part of it. -/
def steps (pattern : String) : Except PatternError (List Step) := do
  let _ ← wildcards pattern
  let pattern := behindRoot pattern
  let ps ← (partsBeforeEnd pattern).mapM wildcards
  return if pattern.isEmpty then [.entry []] else ps.map .ofWildcards

/-- The dots for this directory and the one above it, if the wildcards begin with a dot and match
them. The one above comes first. -/
def matchingDots (ws : List Wildcard) : List String :=
  if ws.head? = some (.char '.') then ["..", "."].filter fun d => matchesName ws d.toList else []

structure Place where
  path : String
  isDirectory : Bool

abbrev Found := Except ReadFault Place

namespace FileTree

def placeAt (t : FileTree) (path : String) : Place :=
  ⟨path, t.isDirectory path⟩

-- An entry is known for a directory without its path being resolved, unless it is a link.
def placeOf (t : FileTree) (path : String) : Entry → Place
  | .directory _ => ⟨path, true⟩
  | .file _ | .socket => ⟨path, false⟩
  | .link _ => t.placeAt path

@[simp] theorem path_placeOf (t : FileTree) (path : String) (e : Entry) :
    (t.placeOf path e).path = path := by
  cases e <;> rfl

-- The dots are not looked for: every directory has them.
def hasEntry (t : FileTree) (p : Place) (n : String) : Bool :=
  if n = "." ∨ n = ".." then p.isDirectory else t.exists? (inside p.path n)

def everywhere (t : FileTree) (visit : Place → List Found) (p : Place) : List Found :=
  visit p ++
    if p.isDirectory then
      match _h : t.list p.path with
      | .error f => [.error f]
      | .ok es => es.attach.flatMap fun ⟨e, _⟩ =>
        t.everywhere visit (t.placeOf (join p.path e.1) e.2)
    else []
termination_by pathLimit - p.path.utf8ByteSize
decreasing_by
  -- A path that is too long is not listed, and each name makes it longer.
  obtain ⟨hlimit, hnames⟩ := list_eq_ok _h
  obtain ⟨hname, -⟩ := hnames e ‹_›
  have hlonger := utf8ByteSize_lt_join hname p.path
  rw [path_placeOf]
  omega

def below (t : FileTree) (visit : Place → List Found) (p : Place) : List Found :=
  if p.isDirectory then
    match t.list p.path with
    | .error f => [.error f]
    | .ok es => es.flatMap fun e => t.everywhere visit (t.placeOf (inside p.path e.1) e.2)
  else []

end FileTree

/-- The places that steps lead to from a place, in the order in which they are found, among the
faults of directories that cannot be listed. -/
def walk (t : FileTree) : List Step → Place → List Found
  | [], p => [.ok p]
  | .entry n :: ss, p =>
    if t.hasEntry p (String.ofList n) then
      walk t ss (t.placeAt (inside p.path (String.ofList n)))
    else []
  | [.anywhere], p => t.below (fun q => if q.isDirectory then [.ok q] else []) p
  | .anywhere :: .anywhere :: ss, p => walk t (.anywhere :: ss) p
  | .anywhere :: s :: ss, p =>
    t.below (fun q => if s.accepts (fileName q.path).toList then walk t ss q else []) p
  | .matching ws :: ss, p =>
    if p.isDirectory then
      match t.list p.path with
      | .error f => [.error f]
      | .ok es =>
        ((matchingDots ws).flatMap fun d => walk t ss (t.placeAt (join p.path d))) ++
          es.flatMap fun e =>
            if matchesName ws e.1.toList then walk t ss (t.placeOf (inside p.path e.1) e.2) else []
    else []

def searchRoot (pattern : String) : String :=
  if isAbsolute pattern then "/" else "."

/-- The paths that match a pattern. One that ends with a slash matches directories only. -/
def matchingPaths (t : FileTree) (pattern : String) :
    Except PatternError (List (Except ReadFault String)) :=
  (steps pattern).map fun ss =>
    (walk t ss (t.placeAt (searchRoot pattern))).filterMap fun
      | .ok p =>
        if pattern.toList.getLast? = some '/' → p.isDirectory then some (.ok p.path) else none
      | .error f => some (.error f)

def patternIn (dir pattern : String) : String :=
  let pattern := String.ofList (dropHere pattern.toList)
  let root := escapePattern dir
  if root.isEmpty then pattern else join root pattern

/-- Appends the paths that are not yet there under any spelling. -/
def addPaths (found : List String) (paths : List String) : List String :=
  paths.foldl (fun l p => if l.any fun q => components q == components p then l else l ++ [p]) found

inductive SearchFault where
  | malformed (error : PatternError)
  | io (fault : ReadFault)
deriving DecidableEq

def SearchFault.message : SearchFault → String
  | malformed e => "invalid glob pattern: " ++ e.message
  | io fault => "IO error: " ++ fault.message

def discover (t : FileTree) (dir : String) (patterns : List String) :
    Except SearchFault (List String) :=
  patterns.foldlM
    (fun found pattern => do
      let matched ← (matchingPaths t (patternIn dir pattern)).mapError .malformed
      let paths ← (matched.mapM id).mapError .io
      return addPaths found (paths.filter t.isFile)) []

end SchemaTypings.Files
