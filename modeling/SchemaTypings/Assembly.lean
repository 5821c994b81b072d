import SchemaTypings.Files.Search
import SchemaTypings.Schema.Validation
import SchemaTypings.Sdl.Document

namespace SchemaTypings

inductive DocumentError where
  | malformed (document : String) (fault : Sdl.Fault)
  | merge (error : MergeError)
  | pattern (fault : Files.SearchFault)
  | unreadable (path : String) (fault : Files.ReadFault)
deriving DecidableEq

def DocumentError.message : DocumentError → String
  | malformed document fault => "syntax error in " ++ document ++ ": " ++ fault.message
  | merge e => e.message
  | pattern fault => fault.message
  | unreadable path fault => "failed to read '" ++ path ++ "': " ++ fault.message

inductive SchemaError where
  | document (error : DocumentError)
  | violation (violation : Violation)
deriving DecidableEq

def SchemaError.message : SchemaError → String
  | document e => "parse error: " ++ e.message
  | violation v => v.message

def parseDocument (text : String) (source : Option String) : Except DocumentError Document :=
  match Sdl.parse text source with
  | .ok d => .ok d
  | .error f => .error (.malformed (source.getD unnamedDocument) f)

namespace Schema

/-- Adds a document to a schema. A malformed one adds nothing; one that does not fit adds what comes
before the definition that does not fit. -/
def addText (s : Schema) (text : String) (source : Option String) :
    Schema × Option DocumentError :=
  match parseDocument text source with
  | .error e => (s, some e)
  | .ok d =>
    let (s, error) := s.addDocument d
    (s, error.map .merge)

def addText? (s : Schema) (text : String) (source : Option String) : Except DocumentError Schema :=
  match s.addText text source with
  | (s, none) => .ok s
  | (_, some e) => .error e

def buildChecked (s : Schema) : Except SchemaError Schema :=
  s.build.mapError .violation

def ofText (text : String) : Except SchemaError Schema := do
  let s ← (empty.addText? text none).mapError .document
  s.buildChecked

end Schema

namespace Files.FileTree

def addFile? (t : FileTree) (s : Schema) (path : String) : Except DocumentError Schema := do
  let text ← (t.read path).mapError (.unreadable path)
  s.addText? text (some path)

def schemaOfFiles (t : FileTree) (paths : List String) : Except SchemaError Schema := do
  let s ← (paths.foldlM t.addFile? Schema.empty).mapError .document
  s.buildChecked

def schemaOfPatterns (t : FileTree) (dir : String) (patterns : List String) :
    Except SchemaError Schema := do
  let paths ← (Files.discover t dir patterns).mapError fun e => .document (.pattern e)
  t.schemaOfFiles paths

end Files.FileTree

end SchemaTypings
