namespace SchemaTypings

inductive TypeRef where
  | named (name : String)
  | list (inner : TypeRef)
  | nonNull (inner : TypeRef)
deriving DecidableEq, Inhabited

namespace TypeRef

def isNonNull : TypeRef → Bool
  | nonNull _ => true
  | _ => false

/-- Wraps a reference in a non-null mark, unless it carries one. -/
def required : TypeRef → TypeRef
  | nonNull t => nonNull t
  | t => nonNull t

def baseName : TypeRef → String
  | named n => n
  | list t => t.baseName
  | nonNull t => t.baseName

def text : TypeRef → String
  | named n => n
  | list t => "[" ++ t.text ++ "]"
  | nonNull t => t.text ++ "!"

end TypeRef

end SchemaTypings
