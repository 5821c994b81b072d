import SchemaTypings.Files.Path

namespace SchemaTypings.Files

structure Access where
  listing : Bool
  passing : Bool
deriving DecidableEq

inductive Entry where
  | directory (access : Access)
  | file (content : ByteArray)
  | socket
  | link (target : String)

inductive ReadFault where
  | notFound
  | denied
  | notADirectory
  | isADirectory
  | noDevice
  | nameTooLong
  | tooManyLinks
  | invalidName
  | invalidText
deriving DecidableEq

def ReadFault.message : ReadFault → String
  | notFound => "No such file or directory (os error 2)"
  | denied => "Permission denied (os error 13)"
  | notADirectory => "Not a directory (os error 20)"
  | isADirectory => "Is a directory (os error 21)"
  | noDevice => "No such device or address (os error 6)"
  | nameTooLong => "File name too long (os error 36)"
  | tooManyLinks => "Too many levels of symbolic links (os error 40)"
  | invalidName => "file name contained an unexpected NUL byte"
  | invalidText => "stream did not contain valid UTF-8"

def nameLimit : Nat := 255

def pathLimit : Nat := 4096

def linkLimit : Nat := 40

def IsName (n : String) : Prop :=
  n ≠ "" ∧ n ≠ "." ∧ n ≠ ".." ∧ '/' ∉ n.toList ∧ '\x00' ∉ n.toList ∧ n.utf8ByteSize ≤ nameLimit

instance (n : String) : Decidable (IsName n) :=
  inferInstanceAs (Decidable (_ ∧ _))

abbrev Position := List String

structure FileTree where
  entries : List (Position × Entry)
  here : Position
  named : ∀ x ∈ entries, ∀ n ∈ x.1, IsName n
  distinct : (entries.map Prod.fst).Nodup

namespace FileTree

def empty : FileTree where
  entries := []
  here := []
  named := nofun
  distinct := List.nodup_nil

/-- The root is always a directory that gives access. -/
def entry? (t : FileTree) : Position → Option Entry
  | [] => some (.directory ⟨true, true⟩)
  | pos => t.entries.lookup pos

def isDirectoryAt (t : FileTree) (pos : Position) : Bool :=
  match t.entry? pos with
  | some (.directory _) => true
  | _ => false

def start (t : FileTree) (path : String) : Position :=
  if isAbsolute path then [] else t.here

/-- The position that a path means when all its directories exist. -/
def positionOf (t : FileTree) (path : String) : Position :=
  (parts path).foldl
    (fun pos p => if p = "" ∨ p = "." then pos else if p = ".." then pos.dropLast else pos ++ [p])
    (t.start path)

def set (t : FileTree) (pos : Position) (e : Entry) : FileTree :=
  if h : ∀ n ∈ pos, IsName n then
    { t with
      entries := t.entries.filter (fun x => x.1 ≠ pos) ++ [(pos, e)]
      named := by
        intro x hx
        obtain hx | hx := List.mem_append.1 hx
        · exact t.named x (List.mem_filter.1 hx).1
        · rw [List.mem_singleton.1 hx]
          exact h
      distinct := by
        rw [List.map_append, List.map_singleton]
        refine List.nodup_append.2 ⟨?_, List.pairwise_singleton .., ?_⟩
        · exact t.distinct.sublist (List.filter_sublist.map Prod.fst)
        · intro p hp q hq he
          obtain ⟨x, hx, rfl⟩ := List.mem_map.1 hp
          have hne : x.1 ≠ pos := of_decide_eq_true (List.mem_filter.1 hx).2
          exact hne (he.trans (List.mem_singleton.1 hq)) }
  else t

def addDirectoryAt (t : FileTree) (pos : Position) : FileTree :=
  (List.range pos.length).foldl
    (fun t n =>
      let above := pos.take (n + 1)
      if t.isDirectoryAt above then t else t.set above (.directory ⟨true, true⟩)) t

def addDirectory (t : FileTree) (path : String) : FileTree :=
  t.addDirectoryAt (t.positionOf path)

def add (t : FileTree) (path : String) (e : Entry) : FileTree :=
  let pos := t.positionOf path
  (t.addDirectoryAt pos.dropLast).set pos e

def addFile (t : FileTree) (path : String) (content : ByteArray) : FileTree :=
  t.add path (.file content)

def enter (t : FileTree) (path : String) : FileTree :=
  { t.addDirectory path with here := t.positionOf path }

def step (t : FileTree) (pos : Position) (part : String) : Except ReadFault Position :=
  match t.entry? pos with
  | some (.directory access) =>
    if part = "" then .ok pos
    else if !access.passing then .error .denied
    else if part = "." then .ok pos
    else if part = ".." then .ok pos.dropLast
    else if nameLimit < part.utf8ByteSize then .error .nameTooLong
    else if (t.entry? (pos ++ [part])).isSome then .ok (pos ++ [part])
    else .error .notFound
  | _ => .error .notADirectory

/-- Goes along parts of a path. The parts of a link's target come before those behind it; the last
link is itself what is found unless it is followed. -/
def along (t : FileTree) (following : Bool)
    (resume : Position → List String → Except ReadFault Position) :
    Position → List String → Except ReadFault Position
  | pos, [] => .ok pos
  | pos, p :: ps => do
    let next ← t.step pos p
    match t.entry? next with
    | some (.link target) =>
      if ps = [] ∧ !following then return next
      else resume (if isAbsolute target then [] else pos) (parts target ++ ps)
    | _ => along t following resume next ps

def alongLinks (t : FileTree) (following : Bool) :
    Nat → Position → List String → Except ReadFault Position
  | 0 => t.along following fun _ _ => .error .tooManyLinks
  | n + 1 => t.along following (t.alongLinks following n)

def find (t : FileTree) (following : Bool) (path : String) : Except ReadFault Position :=
  if path.toList.contains '\x00' then .error .invalidName
  else if pathLimit ≤ path.utf8ByteSize then .error .nameTooLong
  else if path.isEmpty then .error .notFound
  else t.alongLinks following linkLimit (t.start path) (parts path)

def resolve (t : FileTree) (path : String) : Except ReadFault Position :=
  t.find true path

/-- A link that leads nowhere is there itself. -/
def exists? (t : FileTree) (path : String) : Bool :=
  (t.find false path).isOk

def resolvedEntry? (t : FileTree) (path : String) : Option Entry :=
  match t.resolve path with
  | .ok pos => t.entry? pos
  | .error _ => none

def isDirectory (t : FileTree) (path : String) : Bool :=
  match t.resolvedEntry? path with
  | some (.directory _) => true
  | _ => false

def isFile (t : FileTree) (path : String) : Bool :=
  match t.resolvedEntry? path with
  | some (.file _) => true
  | _ => false

def read (t : FileTree) (path : String) : Except ReadFault String := do
  let pos ← t.resolve path
  match t.entry? pos with
  | some (.file content) =>
    match String.fromUTF8? content with
    | some text => .ok text
    | none => .error .invalidText
  | some (.directory access) => .error (if access.listing then .isADirectory else .denied)
  | some .socket => .error .noDevice
  | some (.link _) | none => .error .notFound

def entriesIn (t : FileTree) (pos : Position) : List (String × Entry) :=
  let found := t.entries.filterMap fun x =>
    if x.1.dropLast = pos then x.1.getLast?.map fun n => (n, x.2) else none
  found.mergeSort fun a b => !decide (b.1 < a.1)

def list (t : FileTree) (path : String) : Except ReadFault (List (String × Entry)) := do
  let pos ← t.resolve path
  match t.entry? pos with
  | some (.directory access) =>
    if access.listing then return t.entriesIn pos else throw .denied
  | _ => throw .notADirectory

section Listing

variable {t : FileTree} {path : String} {es : List (String × Entry)}

theorem isName_of_mem_entriesIn {pos : Position} {e : String × Entry} (h : e ∈ t.entriesIn pos) :
    IsName e.1 := by
  obtain ⟨x, hx, he⟩ := List.mem_filterMap.1 (List.mem_mergeSort.1 h)
  split at he
  · obtain ⟨n, hn, rfl⟩ := Option.map_eq_some_iff.1 he
    exact t.named x hx n (List.mem_of_getLast? hn)
  · cases he

theorem utf8ByteSize_lt_of_resolve {pos : Position} (h : t.resolve path = .ok pos) :
    path.utf8ByteSize < pathLimit := by
  unfold resolve find at h
  split at h
  · cases h
  · split at h
    · cases h
    · next hlimit => exact Nat.lt_of_not_le hlimit

theorem list_eq_ok (h : t.list path = .ok es) :
    path.utf8ByteSize < pathLimit ∧ ∀ e ∈ es, IsName e.1 := by
  unfold list at h
  cases hpos : t.resolve path with
  | error f =>
    rw [hpos] at h
    cases h
  | ok pos =>
    simp only [hpos, bind, Except.bind] at h
    split at h
    · split at h
      · obtain rfl := Except.ok.inj h
        exact ⟨utf8ByteSize_lt_of_resolve hpos, fun e he => isName_of_mem_entriesIn he⟩
      · cases h
    · cases h

end Listing

end FileTree

end SchemaTypings.Files
