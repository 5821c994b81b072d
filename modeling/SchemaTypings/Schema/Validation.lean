import SchemaTypings.Schema.Basic

namespace SchemaTypings

inductive Location where
  | type (type : String)
  | field (type field : String)
  | argument (type field argument : String)
deriving DecidableEq

def Location.text : Location → String
  | type t => t
  | field t f => t ++ "." ++ f
  | argument t f a => t ++ "." ++ f ++ "(" ++ a ++ ")"

structure Reference where
  target : String
  location : Location
deriving DecidableEq

inductive Violation where
  | typeNotFound (reference : Reference)
  | repeatedValue (enum value : String)
  | emptyEnum (enum : String)
  | emptyUnion (union : String)
deriving DecidableEq

def Violation.message : Violation → String
  | typeNotFound r =>
    "type '" ++ r.target ++ "' referenced by '" ++ r.location.text ++ "' not found"
  | repeatedValue e v => "invalid enum value '" ++ v ++ "' for enum '" ++ e ++ "'"
  | emptyEnum e => "validation error: Enum '" ++ e ++ "' must define at least one value"
  | emptyUnion u => "validation error: Union '" ++ u ++ "' must have at least one member"

def Field.references (type : String) (f : Field) : List Reference :=
  ⟨f.type.baseName, .field type f.name⟩ ::
    f.arguments.map fun a => ⟨a.type.baseName, .argument type f.name a.name⟩

def TypeDef.references (d : TypeDef) : List Reference :=
  match d.body with
  | .fields _ is fs => is.map (⟨·, .type d.name⟩) ++ fs.toList.flatMap (Field.references d.name)
  | .union ms => ms.map (⟨·, .type d.name⟩)
  | _ => []

def firstRepeated {α : Type} [Named α] (seen : List String) : List α → Option α
  | [] => none
  | a :: r => if seen.contains (name a) then some a else firstRepeated (name a :: seen) r

namespace Schema

def missingReference (s : Schema) (d : TypeDef) : Option Violation :=
  (d.references.find? fun r => !s.hasType r.target).map .typeNotFound

def violationOf (s : Schema) (d : TypeDef) : Option Violation :=
  match d.body with
  | .enum [] => some (.emptyEnum d.name)
  | .enum vs => (firstRepeated [] vs).map fun v => .repeatedValue d.name v.name
  | .union [] => some (.emptyUnion d.name)
  | _ => s.missingReference d

def violation? (s : Schema) : Option Violation :=
  s.types.toList.findSome? s.violationOf

def validate (s : Schema) : Except Violation Unit :=
  match s.violation? with
  | none => .ok ()
  | some v => .error v

def builtin (n : String) : TypeDef := ⟨n, none, none, .scalar⟩

def addBuiltin (s : Schema) (n : String) : Schema :=
  if s.hasType n then s else s.addType (builtin n)

def withBuiltins (s : Schema) : Schema :=
  builtinScalars.foldl addBuiltin s

def build (s : Schema) : Except Violation Schema :=
  s.withBuiltins.validate.map fun _ => s.withBuiltins

end Schema

end SchemaTypings
