import SchemaTypings.Assembly
import SchemaTypings.Options.FromJson
import SchemaTypings.TypeScript.Declare

namespace SchemaTypings

inductive GenerateError where
  | document (error : DocumentError)
  | schema (error : SchemaError)
  | read (fault : Files.ReadFault)
  | options (fault : Json.Fault)
deriving DecidableEq

/-- The message of a fault in options; only values that do not fit are told of. -/
def optionsMessage : Json.Fault → Option String
  | .mismatch m => some ("invalid options: " ++ m.message)
  | _ => none

def GenerateError.message : GenerateError → Option String
  | document e => some ("schema parse error: " ++ e.message)
  | schema e => some ("schema error: " ++ e.message)
  | read f => some ("IO error: " ++ f.message)
  | options f => optionsMessage f

def generateFromText (text : String) (o : Options) : Except GenerateError String := do
  let s ← (Schema.ofText text).mapError .schema
  return s.generate o

namespace Files.FileTree

def generateFromFile (t : FileTree) (path : String) (o : Options) :
    Except GenerateError String := do
  let text ← (t.read path).mapError .read
  let s ← (Schema.empty.addText? text (some path)).mapError .document
  let s ← s.buildChecked.mapError .schema
  return s.generate o

def generateFromPatterns (t : FileTree) (dir : String) (patterns : List String) (o : Options) :
    Except GenerateError String := do
  let s ← (t.schemaOfPatterns dir patterns).mapError .schema
  return s.generate o

def optionsFromFile (t : FileTree) (path : String) : Except GenerateError Options := do
  let text ← (t.read path).mapError .read
  (Options.fromJson text).mapError .options

end Files.FileTree

end SchemaTypings
